import BedrockProtocol.Nbt.BedrockNbtFile
import BedrockProtocol.Nbt.RoundTrip

/-!
# Writing what was read

The bytes that the little-endian reader takes are the layout of a tree, the one that it
returns but for floats, which it casts to double.  The writer gives them back exactly when
no compound of the tree has more children than a collection may have, which the reader does
not check, and no float in the bytes is a signalling NaN, which the cast makes quiet.  The
induction is over the levels of nesting that are left.
-/

namespace BedrockProtocol

namespace BedrockNbt

open BinaryStream

mutual

/-- The little-endian bytes of a payload.  A float holds its 32-bit word. -/
def layout : NbtValue → List UInt8
  | ⟨type, integerValue, floatingValue, stringValue, byteArrayValue, listElementType, listValue,
      compoundValue, intArrayValue, longArrayValue⟩ =>
    match type with
    | .endTag => []
    | .byte => writeSigned 1 integerValue.toInt
    | .short => writeSigned 2 integerValue.toInt
    | .int => writeSigned 4 integerValue.toInt
    | .long => writeSigned 8 integerValue.toInt
    | .float => leBytes 4 floatingValue.toNat
    | .double => leBytes 8 floatingValue.toNat
    | .byteArray => writeSigned 4 byteArrayValue.length ++ byteArrayValue
    | .string => leBytes 2 stringValue.length ++ stringValue
    | .list => listElementType.toByte :: (writeSigned 4 listValue.length ++ layoutItems listValue)
    | .compound => layoutChildren compoundValue ++ [NbtTagType.endTag.toByte]
    | .intArray => writeSigned 4 intArrayValue.length ++
        intArrayValue.flatMap fun item ↦ writeSigned 4 item.toInt
    | .longArray => writeSigned 4 longArrayValue.length ++
        longArrayValue.flatMap fun item ↦ writeSigned 8 item.toInt

def layoutItems : List NbtValue → List UInt8
  | [] => []
  | item :: items => layout item ++ layoutItems items

def layoutChildren : List (List UInt8 × NbtValue) → List UInt8
  | [] => []
  | (name, child) :: children =>
      child.type.toByte :: (leBytes 2 name.length ++ name ++ (layout child ++
        layoutChildren children))

end

/-- The bytes of a document; an end tag has no name. -/
def documentLayout (document : NbtDocument) : List UInt8 :=
  if document.root.type = .endTag then [document.root.type.toByte]
  else document.root.type.toByte :: (leBytes 2 document.name.length ++ document.name ++
    layout document.root)

mutual

/-- The tree with the 32-bit words of its floats as doubles. -/
def widened : NbtValue → NbtValue
  | ⟨type, integerValue, floatingValue, stringValue, byteArrayValue, listElementType, listValue,
      compoundValue, intArrayValue, longArrayValue⟩ =>
    ⟨type, integerValue,
      if type = .float then widen (.ofNat floatingValue.toNat) else floatingValue, stringValue,
      byteArrayValue, listElementType, widenedItems listValue, widenedChildren compoundValue,
      intArrayValue, longArrayValue⟩

def widenedItems : List NbtValue → List NbtValue
  | [] => []
  | item :: items => widened item :: widenedItems items

def widenedChildren : List (List UInt8 × NbtValue) → List (List UInt8 × NbtValue)
  | [] => []
  | (name, child) :: children => (name, widened child) :: widenedChildren children

end

/-- The document that the reader makes of the tree in its bytes. -/
def widenedDocument (document : NbtDocument) : NbtDocument :=
  ⟨document.name, widened document.root⟩

@[simp] theorem widened_type (value : NbtValue) : (widened value).type = value.type := by
  obtain ⟨type⟩ := value
  rw [widened]

/-- The value, every element of a list in it and every child of a compound. -/
inductive Throughout (P : NbtValue → Prop) : NbtValue → Prop
  | intro {value : NbtValue} : P value →
      (value.type = .list → ∀ item ∈ value.listValue, Throughout P item) →
      (value.type = .compound → ∀ child ∈ value.compoundValue, Throughout P child.2) →
      Throughout P value

namespace Throughout

variable {P : NbtValue → Prop} {value : NbtValue}

theorem iff : Throughout P value ↔ P value ∧
    (value.type = .list → ∀ item ∈ value.listValue, Throughout P item) ∧
    (value.type = .compound → ∀ child ∈ value.compoundValue, Throughout P child.2) := by
  constructor
  · rintro ⟨hvalue, hitems, hchildren⟩
    exact ⟨hvalue, hitems, hchildren⟩
  · rintro ⟨hvalue, hitems, hchildren⟩
    exact ⟨hvalue, hitems, hchildren⟩

theorem leaf (hlist : value.type ≠ .list) (hcompound : value.type ≠ .compound) :
    Throughout P value ↔ P value := by
  rw [iff]
  simp [hlist, hcompound]

end Throughout

/-- The compound does not have more children than the limit allows a collection. -/
def CompoundFits (limits : BedrockNbtLimits) (value : NbtValue) : Prop :=
  value.type = .compound → value.compoundValue.length ≤ limits.maxCollectionLength

/-- The word of the float is no signalling NaN. -/
def FloatQuiet (value : NbtValue) : Prop :=
  value.type = .float → isSignalling (.ofNat value.floatingValue.toNat) = false

/-- A writer and the bytes that it should give back: it succeeds exactly when `fits`, with
as many bytes, and with these bytes exactly when `quiet`. -/
def Rewrites (x : Except String (List UInt8 × ℕ)) (total : ℕ) (bytes : List UInt8)
    (fits quiet : Prop) : Prop :=
  ∃ written : List UInt8, written.length = bytes.length ∧ (written = bytes ↔ quiet) ∧
    ∀ r, x = .ok r ↔ fits ∧ r = (written, total)

namespace Rewrites

variable {x : Except String (List UInt8 × ℕ)} {total total' : ℕ} {xs ys : List UInt8}
  {fits fits' quiet quiet' : Prop}

theorem exact (hx : x = .ok (xs, total)) (hfits : fits) (hquiet : quiet) :
    Rewrites x total xs fits quiet := by
  refine ⟨xs, rfl, ⟨fun _ ↦ hquiet, fun _ ↦ rfl⟩, fun r ↦ ?_⟩
  rw [hx, Except.ok.injEq]
  exact ⟨fun h ↦ ⟨hfits, h.symm⟩, fun h ↦ h.2.symm⟩

theorem ok_iff (h : Rewrites x total xs fits quiet) :
    x = .ok (xs, total) ↔ fits ∧ quiet := by
  obtain ⟨written, -, hsame, hrun⟩ := h
  rw [hrun, Prod.mk.injEq, eq_comm (a := xs), hsame]
  exact ⟨fun h ↦ ⟨h.1, h.2.1⟩, fun h ↦ ⟨h.1, h.2, rfl⟩⟩

theorem congr (h : Rewrites x total xs fits quiet) (hfits : fits ↔ fits')
    (hquiet : quiet ↔ quiet') : Rewrites x total xs fits' quiet' := by
  rwa [← propext hfits, ← propext hquiet]

/-- One writer after the other, behind fixed bytes. -/
theorem bind {k : ℕ → Except String (List UInt8 × ℕ)} (hx : Rewrites x total xs fits quiet)
    (hk : Rewrites (k total) total' ys fits' quiet') (front : List UInt8) :
    Rewrites
      (do
        let (bytes, total) ← x
        let (rest, total) ← k total
        pure (front ++ (bytes ++ rest), total))
      total' (front ++ (xs ++ ys)) (fits ∧ fits') (quiet ∧ quiet') := by
  obtain ⟨first, hlength, hsame, hrun⟩ := hx
  obtain ⟨second, hlength', hsame', hrun'⟩ := hk
  refine ⟨front ++ (first ++ second), by simp only [List.length_append, hlength, hlength'],
    ?_, fun r ↦ ?_⟩
  · rw [← hsame, ← hsame', List.append_cancel_left_eq]
    exact ⟨fun h ↦ List.append_inj h hlength, fun h ↦ by rw [h.1, h.2]⟩
  · constructor
    · intro h
      obtain ⟨a, ha, h⟩ := bind_eq_ok.mp h
      obtain ⟨hfits, rfl⟩ := (hrun a).mp ha
      obtain ⟨b, hb, h⟩ := bind_eq_ok.mp h
      obtain ⟨hfits', rfl⟩ := (hrun' b).mp hb
      exact ⟨⟨hfits, hfits'⟩, (Except.ok.inj h).symm⟩
    · rintro ⟨⟨hfits, hfits'⟩, rfl⟩
      rw [(hrun _).mpr ⟨hfits, rfl⟩, ok_bind]
      dsimp only
      rw [(hrun' _).mpr ⟨hfits', rfl⟩]
      rfl

/-- Fixed bytes around a writer. -/
theorem framed (hx : Rewrites x total xs fits quiet) (front back : List UInt8) :
    Rewrites
      (do
        let (bytes, total) ← x
        pure (front ++ (bytes ++ back), total))
      total (front ++ (xs ++ back)) fits quiet := by
  obtain ⟨written, hlength, hsame, hrun⟩ := hx
  refine ⟨front ++ (written ++ back), by simp only [List.length_append, hlength], ?_, fun r ↦ ?_⟩
  · rw [← hsame, List.append_cancel_left_eq, List.append_cancel_right_eq]
  · constructor
    · intro h
      obtain ⟨a, ha, h⟩ := bind_eq_ok.mp h
      obtain ⟨hfits, rfl⟩ := (hrun a).mp ha
      exact ⟨hfits, (Except.ok.inj h).symm⟩
    · rintro ⟨hfits, rfl⟩
      rw [(hrun _).mpr ⟨hfits, rfl⟩]
      rfl

/-- A check in front of a writer. -/
theorem guarded (hx : Rewrites x total xs fits quiet) (c : Prop) [Decidable c] (e : String) :
    Rewrites (if c then .error e else x) total xs (¬ c ∧ fits) quiet := by
  obtain ⟨written, hlength, hsame, hrun⟩ := hx
  refine ⟨written, hlength, hsame, fun r ↦ ?_⟩
  split
  · rename_i hc
    exact ⟨fun h ↦ (nomatch h), fun h ↦ absurd hc h.1.1⟩
  · rename_i hc
    rw [hrun]
    exact ⟨fun h ↦ ⟨⟨hc, h.1⟩, h.2⟩, fun h ↦ ⟨h.1.2, h.2⟩⟩

end Rewrites

/-! ## The pieces of a payload -/

section Pieces

variable {limits : BedrockNbtLimits} {α : Type} {P : List UInt8 → α → Prop}

theorem checkedTagType_eq_ok {raw : UInt8} {type : NbtTagType}
    (h : checkedTagType raw = .ok type) : raw = type.toByte := by
  rw [checkedTagType] at h
  split at h
  · rename_i found hfound
    obtain rfl := Except.ok.inj h
    obtain ⟨hlt, hget⟩ := List.getElem?_eq_some_iff.mp hfound
    rw [← hget]
    have hall : ∀ i (hi : i < NbtTagType.all.length),
        (NbtTagType.all[i]).toByte = UInt8.ofNat i := by decide
    rw [hall, UInt8.ofNat_toNat]
  · cases h

theorem recognizes_tagType {k : NbtTagType → Reader α}
    (hk : ∀ type, Recognizes (k type) fun bytes a ↦ P (type.toByte :: bytes) a) :
    Recognizes (do let raw ← readU8; let type ← checkedTagType raw; k type) P := by
  refine recognizes_readU8.bind ?_
  rintro _ raw rfl
  refine (Recognizes.lift (P := fun bytes type ↦ bytes = [] ∧ raw = type.toByte) fun type h ↦
    ⟨rfl, checkedTagType_eq_ok h⟩).bind ?_
  rintro _ type ⟨rfl, rfl⟩
  exact hk type

theorem recognizes_length {k : ℕ → Reader α}
    (hk : ∀ length, checkedWriteLength limits length = .ok (length : ℤ) →
      Recognizes (k length) fun bytes a ↦ P (writeSigned 4 length ++ bytes) a) :
    Recognizes (do
      let value ← readInt32 .littleEndian
      let length ← checkedReadLength limits value
      k length) P := by
  refine (recognizes_readSigned (k := 4) (by omega)).bind ?_
  rintro _ value ⟨rfl, -, hhigh⟩
  refine (Recognizes.lift (P := fun bytes length ↦ bytes = [] ∧ value = (length : ℕ) ∧
    length ≤ limits.maxCollectionLength) fun length h ↦ ?_).bind ?_
  · unfold checkedReadLength at h
    split_ifs at h with hneg hlimit
    obtain rfl := Except.ok.inj h
    exact ⟨rfl, by omega, by omega⟩
  · rintro _ length ⟨rfl, rfl, hlimit⟩
    refine hk length ?_
    rw [checkedWriteLength, if_neg (by omega)]

theorem recognizes_readString (tagName : Bool) :
    Recognizes (readString .littleEndian limits tagName) fun bytes value ↦
      bytes = leBytes 2 value.length ++ value ∧
        writeString .littleEndian limits value tagName = .ok bytes := by
  refine (recognizes_readWord 2).bind ?_
  rintro _ length ⟨rfl, hlength⟩
  split
  · exact .throw _
  rename_i hlimit
  refine .remaining_bind fun n ↦ ?_
  split
  · exact .throw _
  refine (recognizes_readBytes length).bind ?_
  rintro value _ ⟨rfl, rfl⟩
  split
  · exact .throw _
  rename_i hnull
  refine .pure ⟨by rw [List.append_nil], ?_⟩
  rw [writeString, if_neg hlimit, if_neg hnull, List.append_nil]
  exact if_neg (by omega)

/-- The elements of an array, each of `k` bytes. -/
theorem recognizes_elements {k : ℕ} (hk : 0 < k) (n : ℕ) :
    Recognizes (Reader.many (readSigned k) n) fun bytes values ↦
      values.length = n ∧ (∀ v ∈ values, InSigned (8 * k) v) ∧
        bytes = values.flatMap (writeSigned k) := by
  refine ((recognizes_readSigned hk).many n).mono ?_
  rintro _ values ⟨chunks, hall, hlength, rfl⟩
  refine ⟨hlength, ?_⟩
  clear hlength
  induction hall with
  | nil => exact ⟨by simp, rfl⟩
  | cons hfirst _ ih =>
      obtain ⟨hrange, hrest⟩ := ih
      refine ⟨List.forall_mem_cons.mpr ⟨hfirst.2, hrange⟩, ?_⟩
      rw [List.flatten_cons, List.flatMap_cons, hrest, hfirst.1]

end Pieces

/-! ## Payloads -/

section Recovered

variable {limits : BedrockNbtLimits} {levels total total₀ : ℕ}

/-- The bytes are the layout of the tree before its floats were cast, and the writer gives
them back, as deep as it has this many levels left, as far as the tree allows. -/
def Recovered (limits : BedrockNbtLimits) (levels total : ℕ) (type : NbtTagType)
    (bytes : List UInt8) (r : NbtValue × ℕ) : Prop :=
  r.1.type = type ∧ ∃ raw : NbtValue, r.1 = widened raw ∧ bytes = layout raw ∧
    ∀ depth, levels + depth = limits.maxDepth + 1 →
      Rewrites (writePayload .littleEndian limits depth total r.1) r.2 (layout raw)
        (Throughout (CompoundFits limits) r.1) (Throughout FloatQuiet raw)

theorem recognizes_readItems {elementType : NbtTagType}
    (hnested : ∀ total, Recognizes (readPayload .littleEndian limits levels elementType total)
      (Recovered limits levels total elementType)) (n total : ℕ) :
    Recognizes (readItems (readPayload .littleEndian limits levels elementType) n total)
      fun bytes r ↦ r.1.length = n ∧ ∃ raws : List NbtValue, r.1 = widenedItems raws ∧
        raws.length = n ∧ bytes = layoutItems raws ∧
        ∀ depth, levels + depth = limits.maxDepth + 1 →
          Rewrites (writeItems .littleEndian limits depth total elementType r.1) r.2
            (layoutItems raws) (∀ item ∈ r.1, Throughout (CompoundFits limits) item)
            (∀ raw ∈ raws, Throughout FloatQuiet raw) := by
  induction n generalizing total with
  | zero =>
      refine .pure ⟨rfl, [], rfl, rfl, rfl, fun depth _ ↦ ?_⟩
      exact .exact rfl (by simp) (by simp)
  | succ n ih =>
      refine (hnested total).bind ?_
      rintro _ ⟨item, total₁⟩ ⟨htype, raw, hwidened, rfl, hitem⟩
      refine (ih total₁).bind ?_
      rintro _ ⟨items, total₂⟩ ⟨hlength, raws, hitems, hraws, rfl, hwrites⟩
      refine .pure ⟨congrArg (· + 1) hlength, raw :: raws, ?_, congrArg (· + 1) hraws, ?_,
        fun depth hdepth ↦ ?_⟩
      · dsimp only at hwidened hitems ⊢
        rw [widenedItems, hwidened, hitems]
      · rw [List.append_nil, layoutItems]
      · rw [writeItems, if_neg (not_not.mpr htype)]
        refine ((hitem depth hdepth).bind
          (k := fun total ↦ writeItems .littleEndian limits depth total elementType items)
          (hwrites depth hdepth) []).congr ?_ ?_ <;>
          exact List.forall_mem_cons.symm

theorem recognizes_readChildren
    (hnested : ∀ type total, Recognizes (readPayload .littleEndian limits levels type total)
      (Recovered limits levels total type)) (fuel total : ℕ) :
    Recognizes (readChildren .littleEndian limits (readPayload .littleEndian limits levels)
        fuel total)
      fun bytes r ↦ ∃ raws : List (List UInt8 × NbtValue), r.1 = widenedChildren raws ∧
        bytes = layoutChildren raws ++ [NbtTagType.endTag.toByte] ∧
        ∀ depth, levels + depth = limits.maxDepth + 1 →
          Rewrites (writeChildren .littleEndian limits depth total r.1) r.2
            (layoutChildren raws) (∀ child ∈ r.1, Throughout (CompoundFits limits) child.2)
            (∀ raw ∈ raws, Throughout FloatQuiet raw.2) := by
  induction fuel generalizing total with
  | zero => exact .throw _
  | succ fuel ih =>
      refine recognizes_tagType fun type ↦ ?_
      split
      · rename_i hend
        subst hend
        refine .pure ⟨[], rfl, rfl, fun depth _ ↦ ?_⟩
        exact .exact rfl (by simp) (by simp)
      rename_i hend
      refine (recognizes_readString true).bind ?_
      rintro _ name ⟨rfl, hname⟩
      refine (hnested type total).bind ?_
      rintro _ ⟨child, total₁⟩ ⟨htype, raw, hwidened, rfl, hchild⟩
      refine (ih total₁).bind ?_
      rintro _ ⟨children, total₂⟩ ⟨raws, hraws, rfl, hchildren⟩
      have hraw : raw.type = type := by
        rw [← htype, hwidened, widened_type]
      refine .pure ⟨(name, raw) :: raws, ?_, ?_, fun depth hdepth ↦ ?_⟩
      · dsimp only at hwidened hraws ⊢
        rw [widenedChildren, hwidened, hraws]
      · rw [layoutChildren, hraw]
        simp only [List.append_nil, List.cons_append, List.append_assoc]
      · rw [writeChildren, if_neg (by rwa [htype]), hname, ok_bind, layoutChildren, hraw, htype]
        have hboth := (hchild depth hdepth).bind
          (k := fun total ↦ writeChildren .littleEndian limits depth total children)
          (hchildren depth hdepth) (type.toByte :: (leBytes 2 name.length ++ name))
        simp only [List.cons_append, List.append_assoc] at hboth ⊢
        exact hboth.congr (by rw [List.forall_mem_cons]) (by rw [List.forall_mem_cons])

/-! ### One lemma for each kind of tag -/

/-- A tag without nested values that the writer writes as it lies. -/
theorem recovered_leaf {value : NbtValue} {bytes : List UInt8}
    (hleaf : value.type ≠ .list ∧ value.type ≠ .compound ∧ value.type ≠ .float)
    (hwidened : value = widened value) (hlayout : layout value = bytes)
    (hwrite : ∀ depth ≤ limits.maxDepth,
      writePayload .littleEndian limits depth total₀ value = .ok (bytes, total)) :
    Recovered limits (levels + 1) total₀ value.type bytes (value, total) := by
  obtain ⟨hlist, hcompound, hfloat⟩ := hleaf
  subst hlayout
  refine ⟨rfl, value, hwidened, rfl, fun depth hdepth ↦ .exact (hwrite depth (by omega)) ?_ ?_⟩
  · exact (Throughout.leaf hlist hcompound).mpr fun h ↦ absurd h hcompound
  · exact (Throughout.leaf hlist hcompound).mpr fun h ↦ absurd h hfloat

theorem checkedInteger_ofInt {bits : ℕ} {v : ℤ} (h : InSigned bits v)
    (hint : (Int64.ofInt v).toInt = v) (tagName : String) :
    checkedInteger bits (.ofInt v) tagName = .ok v := by
  rw [checkedInteger, hint, if_pos h]

/-- An integer of `k` bytes. -/
theorem recognizes_integer {k : ℕ} {type : NbtTagType} (hpos : 0 < k) (hlong : k ≤ 8)
    (hleaf : type ≠ .list ∧ type ≠ .compound ∧ type ≠ .float)
    (hlayout : ∀ integerValue : Int64,
      layout { type, integerValue } = writeSigned k integerValue.toInt)
    (hwrite : ∀ depth ≤ limits.maxDepth, ∀ v, InSigned (8 * k) v → (Int64.ofInt v).toInt = v →
      writePayload .littleEndian limits depth total₀ { type, integerValue := .ofInt v } =
        .ok (writeSigned k v, total)) :
    Recognizes (do
        let value ← readSigned k
        pure (({ type, integerValue := .ofInt value } : NbtValue), total))
      (Recovered limits (levels + 1) total₀ type) := by
  refine (recognizes_readSigned hpos).bind ?_
  rintro _ v ⟨rfl, hv⟩
  have hpow : (2 : ℤ) ^ (8 * k - 1) ≤ 2 ^ 63 := pow_le_pow_right₀ (by omega) (by omega)
  have hint : (Int64.ofInt v).toInt = v :=
    Int64.toInt_ofInt_of_le (by have := hv.1; omega) (by have := hv.2; omega)
  refine .pure (recovered_leaf hleaf ?_ (by rw [hlayout, hint, List.append_nil])
    fun depth hdepth ↦ ?_)
  · rw [widened, if_neg hleaf.2.2]
    rfl
  · rw [hwrite depth hdepth v hv hint, List.append_nil]

theorem recovered_float {bits : ℕ} (hbits : bits < 256 ^ 4)
    (haccount : accountValue limits total₀ = .ok total) :
    Recovered limits (levels + 1) total₀ .float (leBytes 4 bits)
      ({ type := .float, floatingValue := widen (.ofNat bits) }, total) := by
  have hword : (UInt64.ofNat bits).toNat = bits := by
    rw [UInt64.toNat_ofNat']
    omega
  have hword' : (UInt32.ofNat bits).toNat = bits := by
    rw [UInt32.toNat_ofNat']
    omega
  refine ⟨rfl, { type := .float, floatingValue := .ofNat bits }, ?_, by rw [layout, hword],
    fun depth hdepth ↦ ⟨leBytes 4 (narrow (widen (.ofNat bits))).toNat, ?_, ?_, fun r ↦ ?_⟩⟩
  · rw [widened, if_pos rfl, hword]
    rfl
  · rw [layout, length_leBytes, length_leBytes]
  · rw [Throughout.leaf (by simp) (by simp), FloatQuiet, layout, hword]
    have hsame : leBytes 4 (narrow (widen (.ofNat bits))).toNat = leBytes 4 bits ↔
        narrow (widen (.ofNat bits)) = .ofNat bits := by
      constructor
      · intro h
        have hvalue := congrArg leValue h
        rw [leValue_leBytes_of_lt (UInt32.toNat_lt _), leValue_leBytes_of_lt hbits] at hvalue
        rw [← UInt32.toNat_inj, hvalue, hword']
      · intro h
        rw [h, hword']
    rw [hsame, narrow_widen_iff]
    exact ⟨fun h _ ↦ h, fun h ↦ h rfl⟩
  · rw [writePayload, if_neg (by omega), haccount, ok_bind, Throughout.leaf (by simp) (by simp)]
    dsimp only
    rw [pure_eq_ok, Except.ok.injEq]
    exact ⟨fun h ↦ ⟨fun h' ↦ (by cases h'), h.symm⟩, fun h ↦ h.2.symm⟩

/-- The elements of an array as machine words. -/
theorem flatMap_ofInt {β : Type} {k : ℕ} {ofInt : ℤ → β} {toInt : β → ℤ} {values : List ℤ}
    (hback : ∀ v ∈ values, toInt (ofInt v) = v) :
    values.flatMap (writeSigned k) =
      (values.map ofInt).flatMap fun item ↦ writeSigned k (toInt item) := by
  rw [List.flatMap_map]
  exact List.flatMap_congr fun v hv ↦ by rw [hback v hv]

/-- An array of words of `k` bytes. -/
theorem recognizes_array {β : Type} (k : ℕ) {ofInt : ℤ → β} (toInt : β → ℤ) {type : NbtTagType}
    (value : List β → NbtValue) (message : String) (hpos : 0 < k)
    (hback : ∀ v, InSigned (8 * k) v → toInt (ofInt v) = v)
    (hleaf : type ≠ .list ∧ type ≠ .compound ∧ type ≠ .float)
    (htype : ∀ items, (value items).type = type)
    (hwidened : ∀ items, value items = widened (value items))
    (hlayout : ∀ items, layout (value items) =
      writeSigned 4 items.length ++ items.flatMap fun item ↦ writeSigned k (toInt item))
    (hwrite : ∀ depth ≤ limits.maxDepth, ∀ items,
      checkedWriteLength limits items.length = .ok (items.length : ℤ) →
        writePayload .littleEndian limits depth total₀ (value items) =
          .ok (layout (value items), total)) :
    Recognizes (do
        let length ← readInt32 .littleEndian
        let length ← checkedReadLength limits length
        if (← Reader.remaining) / k < length then throw message
        else
          let items ← Reader.many (readSigned k) length
          pure (value (items.map ofInt), total))
      (Recovered limits (levels + 1) total₀ type) := by
  refine recognizes_length fun length hlength ↦ .remaining_bind fun n ↦ ?_
  split
  · exact .throw _
  refine (recognizes_elements hpos length).bind ?_
  rintro _ values ⟨rfl, hvalues, rfl⟩
  have hitems := flatMap_ofInt (k := k) fun v hv ↦ hback v (hvalues v hv)
  have hbytes : layout (value (values.map ofInt)) =
      writeSigned 4 values.length ++ values.flatMap (writeSigned k) := by
    rw [hlayout, hitems, List.length_map]
  have hrecovered := @recovered_leaf limits levels total total₀ (value (values.map ofInt)) _
    (by rwa [htype]) (hwidened _) hbytes fun depth hdepth ↦ by
      rw [← hbytes]
      exact hwrite depth hdepth _ (by rw [List.length_map, hlength])
  rw [htype] at hrecovered
  exact .pure (by rwa [List.append_nil])

theorem recognizes_list (haccount : accountValue limits total₀ = .ok total)
    (hnested : ∀ type total, Recognizes (readPayload .littleEndian limits levels type total)
      (Recovered limits levels total type)) :
    Recognizes
      (readBody .littleEndian limits (readPayload .littleEndian limits levels) .list total)
      (Recovered limits (levels + 1) total₀ .list) := by
  refine recognizes_tagType fun elementType ↦ recognizes_length fun length hlength ↦ ?_
  split
  · exact .throw _
  rename_i hend
  refine (recognizes_readItems (hnested elementType) length total).bind ?_
  rintro _ ⟨items, total'⟩ ⟨hitems, raws, hwidened, hraws, rfl, hwrites⟩
  dsimp only at hitems hwidened
  refine .pure ⟨rfl, { type := .list, listElementType := elementType, listValue := raws }, ?_,
    ?_, fun depth hdepth ↦ ?_⟩
  · rw [widened, hwidened]
    rfl
  · rw [layout, hraws, List.append_nil]
  · have hne : ¬ (elementType = .endTag ∧ items ≠ []) := by
      rintro ⟨htype, hnil⟩
      exact hend ⟨htype, fun hzero ↦ hnil (List.length_eq_zero_iff.mp (hitems.trans hzero))⟩
    have hlength' : checkedWriteLength limits items.length = .ok (length : ℤ) := by
      rw [hitems, hlength]
    rw [writePayload, if_neg (by omega), haccount, ok_bind, layout, hraws]
    dsimp only
    rw [if_neg hne, hlength', ok_bind]
    have hframed := (hwrites (depth + 1) (by omega)).framed
      (elementType.toByte :: writeSigned 4 length) []
    simp only [List.append_nil] at hframed
    refine hframed.congr ?_ ?_ <;> rw [Throughout.iff]
    · simp [CompoundFits]
    · simp [FloatQuiet]

theorem recognizes_compound (haccount : accountValue limits total₀ = .ok total)
    (hnested : ∀ type total, Recognizes (readPayload .littleEndian limits levels type total)
      (Recovered limits levels total type)) :
    Recognizes
      (readBody .littleEndian limits (readPayload .littleEndian limits levels) .compound total)
      (Recovered limits (levels + 1) total₀ .compound) := by
  refine .remaining_bind fun n ↦ ?_
  refine (recognizes_readChildren hnested (n + 1) total).bind ?_
  rintro _ ⟨children, total'⟩ ⟨raws, hwidened, rfl, hwrites⟩
  dsimp only at hwidened
  refine .pure ⟨rfl, { type := .compound, compoundValue := raws }, ?_, ?_, fun depth hdepth ↦ ?_⟩
  · rw [widened, hwidened]
    rfl
  · rw [layout, List.append_nil]
  · rw [writePayload, if_neg (by omega), haccount, ok_bind, layout]
    dsimp only
    have hframed := ((hwrites (depth + 1) (by omega)).framed [] [NbtTagType.endTag.toByte]
      ).guarded (limits.maxCollectionLength < children.length)
      "NBT compound length exceeds configured limit"
    refine hframed.congr ?_ ?_ <;> rw [Throughout.iff]
    · simp [CompoundFits]
    · simp [FloatQuiet]

theorem recognizes_readBody (haccount : accountValue limits total₀ = .ok total)
    (hnested : ∀ type total, Recognizes (readPayload .littleEndian limits levels type total)
      (Recovered limits levels total type)) (type : NbtTagType) :
    Recognizes (readBody .littleEndian limits (readPayload .littleEndian limits levels) type total)
      (Recovered limits (levels + 1) total₀ type) := by
  cases type with
  | endTag =>
      refine .pure (recovered_leaf (by simp) rfl (by rw [layout]) fun depth hdepth ↦ ?_)
      rw [writePayload, if_neg (by omega), haccount, ok_bind]
      rfl
  | byte =>
      refine recognizes_integer (k := 1) (by omega) (by omega) (by simp) (fun v ↦ by rw [layout])
        fun depth hdepth v hv hint ↦ ?_
      rw [writePayload, if_neg (by omega), haccount, ok_bind]
      dsimp only
      rw [checkedInteger_ofInt hv hint]
      rfl
  | short =>
      refine recognizes_integer (k := 2) (by omega) (by omega) (by simp) (fun v ↦ by rw [layout])
        fun depth hdepth v hv hint ↦ ?_
      rw [writePayload, if_neg (by omega), haccount, ok_bind]
      dsimp only
      rw [checkedInteger_ofInt hv hint]
      rfl
  | int =>
      refine recognizes_integer (k := 4) (by omega) (by omega) (by simp) (fun v ↦ by rw [layout])
        fun depth hdepth v hv hint ↦ ?_
      rw [writePayload, if_neg (by omega), haccount, ok_bind]
      dsimp only
      rw [checkedInteger_ofInt hv hint]
      rfl
  | long =>
      refine recognizes_integer (k := 8) (by omega) (by omega) (by simp) (fun v ↦ by rw [layout])
        fun depth hdepth v hv hint ↦ ?_
      rw [writePayload, if_neg (by omega), haccount, ok_bind]
      dsimp only
      rw [hint]
      rfl
  | float =>
      refine (recognizes_readWord 4).bind ?_
      rintro _ bits ⟨rfl, hbits⟩
      exact .pure (by rw [List.append_nil]; exact recovered_float hbits haccount)
  | double =>
      refine (recognizes_readWord 8).bind ?_
      rintro _ bits ⟨rfl, hbits⟩
      have hword : (UInt64.ofNat bits).toNat = bits := by
        rw [UInt64.toNat_ofNat']
        omega
      refine .pure (recovered_leaf (by simp) rfl (by rw [layout, hword, List.append_nil])
        fun depth hdepth ↦ ?_)
      rw [writePayload, if_neg (by omega), haccount, ok_bind]
      dsimp only
      rw [hword, List.append_nil]
      rfl
  | byteArray =>
      refine recognizes_length fun length hlength ↦ .remaining_bind fun n ↦ ?_
      split
      · exact .throw _
      refine (recognizes_readBytes length).bind ?_
      rintro bytes _ ⟨rfl, rfl⟩
      refine .pure (recovered_leaf (by simp) rfl (by rw [layout, List.append_nil])
        fun depth hdepth ↦ ?_)
      rw [writePayload, if_neg (by omega), haccount, ok_bind]
      dsimp only
      rw [hlength, List.append_nil]
      rfl
  | string =>
      refine (recognizes_readString false).bind ?_
      rintro _ text ⟨rfl, htext⟩
      refine .pure (recovered_leaf (by simp) rfl (by rw [layout, List.append_nil])
        fun depth hdepth ↦ ?_)
      rw [writePayload, if_neg (by omega), haccount, ok_bind]
      dsimp only
      rw [htext, List.append_nil]
      rfl
  | list => exact recognizes_list haccount hnested
  | compound => exact recognizes_compound haccount hnested
  | intArray =>
      refine recognizes_array 4 Int32.toInt
        (fun items ↦ { type := .intArray, intArrayValue := items })
        "NBT int array exceeds remaining input" (by omega)
        (fun v hv ↦ Int32.toInt_ofInt_of_le hv.1 hv.2) (by simp) (fun _ ↦ rfl) (fun _ ↦ rfl)
        (fun items ↦ by rw [layout]) fun depth hdepth items hlength ↦ ?_
      rw [writePayload, if_neg (by omega), haccount, ok_bind, layout]
      dsimp only
      rw [hlength]
      rfl
  | longArray =>
      refine recognizes_array 8 Int64.toInt
        (fun items ↦ { type := .longArray, longArrayValue := items })
        "NBT long array exceeds remaining input" (by omega)
        (fun v hv ↦ Int64.toInt_ofInt_of_le hv.1 hv.2) (by simp) (fun _ ↦ rfl) (fun _ ↦ rfl)
        (fun items ↦ by rw [layout]) fun depth hdepth items hlength ↦ ?_
      rw [writePayload, if_neg (by omega), haccount, ok_bind, layout]
      dsimp only
      rw [hlength]
      rfl

/-- The induction over the levels of nesting. -/
theorem recognizes_readPayload (levels : ℕ) (type : NbtTagType) (total : ℕ) :
    Recognizes (readPayload .littleEndian limits levels type total)
      (Recovered limits levels total type) := by
  induction levels generalizing type total with
  | zero => exact .throw _
  | succ levels ih =>
      refine (Recognizes.lift (P := fun bytes total₁ ↦ bytes = [] ∧
        accountValue limits total = .ok total₁) fun total₁ h ↦ ⟨rfl, h⟩).bind ?_
      rintro _ total₁ ⟨rfl, haccount⟩
      exact recognizes_readBody haccount ih type

theorem recognizes_read :
    Recognizes (read .littleEndian limits) fun bytes document ↦ ∃ raw : NbtDocument,
      document = widenedDocument raw ∧ bytes = documentLayout raw ∧
        (write .littleEndian limits document = .ok bytes ↔
          Throughout (CompoundFits limits) document.root ∧ Throughout FloatQuiet raw.root) := by
  refine recognizes_tagType fun type ↦ ?_
  split
  · rename_i hend
    subst hend
    refine .pure ⟨⟨[], {}⟩, rfl, rfl, ?_⟩
    rw [Throughout.leaf (by simp) (by simp), Throughout.leaf (by simp) (by simp)]
    exact ⟨fun _ ↦ ⟨fun h ↦ (nomatch h), fun h ↦ (nomatch h)⟩, fun _ ↦ rfl⟩
  rename_i hend
  refine (recognizes_readString true).bind ?_
  rintro _ name ⟨rfl, hname⟩
  refine (recognizes_readPayload (limits.maxDepth + 1) type 0).bind ?_
  rintro _ ⟨root, total⟩ ⟨htype, raw, hwidened, rfl, hwrites⟩
  have hiff := (hwrites 0 (Nat.add_zero _)).ok_iff
  dsimp only at htype hwidened hiff
  have hraw : raw.type = type := by rw [← htype, hwidened, widened_type]
  have hend' : ¬ raw.type = .endTag := by rwa [hraw]
  refine .pure ⟨⟨name, raw⟩, ?_, ?_, ?_⟩
  · rw [widenedDocument, hwidened]
  · rw [documentLayout, if_neg hend', hraw, List.append_nil]
  · rw [write, if_neg (by rwa [htype]), ← hiff, hname, ok_bind, htype, List.append_nil]
    constructor
    · intro h
      obtain ⟨⟨bytes, total'⟩, hpayload, h⟩ := bind_eq_ok.mp h
      obtain ⟨-, hbytes⟩ := List.cons.inj (Except.ok.inj h)
      obtain ⟨written, hlength, -, hrun⟩ := hwrites 0 (Nat.add_zero _)
      obtain ⟨hfits, hwritten⟩ := (hrun _).mp hpayload
      obtain ⟨rfl, rfl⟩ := Prod.mk.inj hwritten
      rw [hpayload, List.append_cancel_left hbytes]
    · intro h
      rw [h]
      rfl

end Recovered

/-! ## The tree in the bytes -/

/-- The bytes and the tree with its floats cast decide the words of the floats. -/
def DecidesFloats (value : NbtValue) : Prop :=
  ∀ (raw : NbtValue) (rest rest' : List UInt8), widened value = widened raw →
    layout value ++ rest = layout raw ++ rest' →
      rest = rest' ∧ (Throughout FloatQuiet value → Throughout FloatQuiet raw)

theorem length_widenedItems (items : List NbtValue) :
    (widenedItems items).length = items.length := by
  induction items with
  | nil => rfl
  | cons item items ih => rw [widenedItems, List.length_cons, ih, List.length_cons]

theorem items_decideFloats {items : List NbtValue} (hitems : ∀ item ∈ items, DecidesFloats item)
    (raws : List NbtValue) (rest rest' : List UInt8)
    (hwidened : widenedItems items = widenedItems raws)
    (hlayout : layoutItems items ++ rest = layoutItems raws ++ rest') :
    rest = rest' ∧ ((∀ item ∈ items, Throughout FloatQuiet item) →
      ∀ raw ∈ raws, Throughout FloatQuiet raw) := by
  induction items generalizing raws with
  | nil =>
      cases raws with
      | nil => exact ⟨hlayout, fun h ↦ h⟩
      | cons raw raws => cases hwidened
  | cons item items ih =>
      cases raws with
      | nil => cases hwidened
      | cons raw raws =>
          obtain ⟨hfirst, hothers⟩ := List.cons.inj hwidened
          rw [layoutItems, layoutItems, List.append_assoc, List.append_assoc] at hlayout
          obtain ⟨hlayout, hquiet⟩ := hitems item (by simp) raw _ _ hfirst hlayout
          obtain ⟨hrest, hquiets⟩ := ih (fun i hi ↦ hitems i (by simp [hi])) raws hothers hlayout
          refine ⟨hrest, fun h ↦ List.forall_mem_cons.mpr ⟨hquiet (h item (by simp)), ?_⟩⟩
          exact hquiets fun i hi ↦ h i (by simp [hi])

theorem children_decideFloats {children : List (List UInt8 × NbtValue)}
    (hchildren : ∀ child ∈ children, DecidesFloats child.2)
    (raws : List (List UInt8 × NbtValue)) (rest rest' : List UInt8)
    (hwidened : widenedChildren children = widenedChildren raws)
    (hlayout : layoutChildren children ++ rest = layoutChildren raws ++ rest') :
    rest = rest' ∧ ((∀ child ∈ children, Throughout FloatQuiet child.2) →
      ∀ raw ∈ raws, Throughout FloatQuiet raw.2) := by
  induction children generalizing raws with
  | nil =>
      cases raws with
      | nil => exact ⟨hlayout, fun h ↦ h⟩
      | cons raw raws => cases hwidened
  | cons child children ih =>
      cases raws with
      | nil => cases hwidened
      | cons raw raws =>
          obtain ⟨name, child⟩ := child
          obtain ⟨name', raw⟩ := raw
          obtain ⟨hfirst, hothers⟩ := List.cons.inj hwidened
          obtain ⟨rfl, hchild⟩ := Prod.mk.inj hfirst
          rw [layoutChildren, layoutChildren] at hlayout
          simp only [List.cons_append, List.append_assoc] at hlayout
          have hlayout := List.append_cancel_left (List.append_cancel_left (List.cons.inj hlayout).2)
          obtain ⟨hlayout, hquiet⟩ := hchildren _ List.mem_cons_self raw _ _ hchild hlayout
          obtain ⟨hrest, hquiets⟩ := ih (fun c hc ↦ hchildren c (by simp [hc])) raws hothers hlayout
          refine ⟨hrest, fun h ↦ List.forall_mem_cons.mpr ⟨hquiet (h _ List.mem_cons_self), ?_⟩⟩
          exact hquiets fun c hc ↦ h c (by simp [hc])

theorem decidesFloats (value : NbtValue) : DecidesFloats value := by
  induction value using nbtValue_induction with
  | step value hitems hchildren =>
      rintro raw rest rest' hwidened hlayout
      obtain ⟨type, integerValue, floatingValue, stringValue, byteArrayValue, listElementType,
        listValue, compoundValue, intArrayValue, longArrayValue⟩ := value
      obtain ⟨_, _, floatingValue', _, _, _, listValue', compoundValue', _, _⟩ := raw
      simp only [widened, NbtValue.mk.injEq] at hwidened
      obtain ⟨rfl, rfl, hfloat, rfl, rfl, rfl, hlist, hcompound, rfl, rfl⟩ := hwidened
      cases type with
      | float =>
          simp only [layout] at hlayout
          obtain ⟨hword, hrest⟩ := List.append_inj hlayout (by simp only [length_leBytes])
          refine ⟨hrest, fun h ↦ (Throughout.leaf (by simp) (by simp)).mpr fun _ ↦ ?_⟩
          have hquiet := (Throughout.leaf (by simp) (by simp)).mp h rfl
          have hsame : UInt32.ofNat floatingValue.toNat = UInt32.ofNat floatingValue'.toNat := by
            have hvalue := congrArg leValue hword
            rw [leValue_leBytes, leValue_leBytes] at hvalue
            exact UInt32.toNat_inj.mp (by simpa [UInt32.toNat_ofNat'] using hvalue)
          exact hsame ▸ hquiet
      | list =>
          have hlength := congrArg List.length hlist
          rw [length_widenedItems, length_widenedItems] at hlength
          simp only [layout, hlength, List.cons_append, List.append_assoc] at hlayout
          obtain ⟨hrest, hquiets⟩ := items_decideFloats hitems _ _ _ hlist
            (List.append_cancel_left (List.cons.inj hlayout).2)
          refine ⟨hrest, fun h ↦ ?_⟩
          obtain ⟨-, hall, -⟩ := Throughout.iff.mp h
          exact Throughout.iff.mpr ⟨by simp [FloatQuiet], fun _ ↦ hquiets (hall rfl), by simp⟩
      | compound =>
          simp only [layout, List.append_assoc] at hlayout
          obtain ⟨hrest, hquiets⟩ := children_decideFloats hchildren _ _ _ hcompound hlayout
          refine ⟨List.append_cancel_left hrest, fun h ↦ ?_⟩
          obtain ⟨-, -, hall⟩ := Throughout.iff.mp h
          exact Throughout.iff.mpr ⟨by simp [FloatQuiet], by simp, fun _ ↦ hquiets (hall rfl)⟩
      | _ =>
          simp only [reduceCtorEq, if_false] at hfloat
          subst hfloat
          simp only [layout] at hlayout
          exact ⟨List.append_cancel_left hlayout,
            fun _ ↦ (Throughout.leaf (by simp) (by simp)).mpr fun h ↦ (nomatch h)⟩

theorem floatQuiet_iff {raw raw' : NbtDocument}
    (hwidened : widenedDocument raw = widenedDocument raw')
    (hlayout : documentLayout raw = documentLayout raw') :
    Throughout FloatQuiet raw.root ↔ Throughout FloatQuiet raw'.root := by
  obtain ⟨hname, hroot⟩ := NbtDocument.mk.inj hwidened
  have htype : raw.root.type = raw'.root.type := by
    rw [← widened_type, hroot, widened_type]
  rw [documentLayout, documentLayout, ← htype, ← hname] at hlayout
  by_cases hend : raw.root.type = .endTag
  · have hend' : raw'.root.type = .endTag := htype ▸ hend
    rw [Throughout.leaf (by simp [hend]) (by simp [hend]),
      Throughout.leaf (by simp [hend']) (by simp [hend'])]
    simp [FloatQuiet, hend, hend']
  · rw [if_neg hend, if_neg hend] at hlayout
    have hsame := List.append_cancel_left (List.cons.inj hlayout).2
    refine ⟨(decidesFloats _ _ [] [] hroot ?_).2, (decidesFloats _ _ [] [] hroot.symm ?_).2⟩
    · rw [hsame]
    · rw [hsame]

/-- Writing what was read gives the bytes that were read exactly when the limit on
collections holds for the compounds as well and no float changes on its way to a double. -/
theorem write_read_iff {limits : BedrockNbtLimits} {c c' : Cursor} {document : NbtDocument}
    (hread : read .littleEndian limits c = .ok (document, c')) :
    ∃ consumed : List UInt8, c.rest = consumed ++ c'.rest ∧
      (∃ raw, document = widenedDocument raw ∧ consumed = documentLayout raw) ∧
      ∀ raw, document = widenedDocument raw → consumed = documentLayout raw →
        (write .littleEndian limits document = .ok consumed ↔
          Throughout (CompoundFits limits) document.root ∧ Throughout FloatQuiet raw.root) := by
  obtain ⟨consumed, hrest, raw, hdocument, hlayout, hiff⟩ := recognizes_read c document c' hread
  refine ⟨consumed, hrest, ⟨raw, hdocument, hlayout⟩, fun raw' hdocument' hlayout' ↦ ?_⟩
  rw [hiff, floatQuiet_iff (hdocument.symm.trans hdocument') (hlayout.symm.trans hlayout')]

/-- A compound with a float of 1 in it comes back where a compound may have one child. -/
theorem write_read_compound :
    write .littleEndian { maxCollectionLength := 1 }
        ⟨[], .compound [([0x61], { type := .float, floatingValue := 0x3ff0000000000000 })]⟩ =
      .ok [10, 0, 0, 5, 1, 0, 0x61, 0, 0, 0x80, 0x3f, 0] := by
  obtain ⟨consumed, hrest, -, hiff⟩ :=
    write_read_iff (show read .littleEndian { maxCollectionLength := 1 }
      (Cursor.start [10, 0, 0, 5, 1, 0, 0x61, 0, 0, 0x80, 0x3f, 0, 7]) = .ok (_, ⟨12, [7]⟩) from rfl)
  obtain rfl : [10, 0, 0, 5, 1, 0, 0x61, 0, 0, 0x80, 0x3f, 0] = consumed :=
    @List.append_cancel_right _ _ [7] _ hrest
  refine (hiff ⟨[], .compound [([0x61], { type := .float, floatingValue := 0x3f800000 })]⟩ rfl
    rfl).mpr ⟨.intro (fun _ ↦ le_rfl) (by simp) fun _ child hchild ↦ ?_,
      .intro (by simp [FloatQuiet, NbtValue.compound]) (by simp [NbtValue.compound])
        fun _ child hchild ↦ ?_⟩
  · obtain rfl := List.mem_singleton.mp hchild
    exact (Throughout.leaf (by simp) (by simp)).mpr (by simp [CompoundFits])
  · obtain rfl := List.mem_singleton.mp hchild
    exact (Throughout.leaf (by simp) (by simp)).mpr fun _ ↦ by decide

/-- A compound with one child too many is read and not written, and a signalling NaN is
written as a quiet one. -/
theorem write_read_differs :
    ¬ (∀ (limits : BedrockNbtLimits) (c : Cursor) (document : NbtDocument) (c' : Cursor),
      read .littleEndian limits c = .ok (document, c') →
        ∃ consumed, c.rest = consumed ++ c'.rest ∧
          write .littleEndian limits document = .ok consumed) ∧
    ¬ (∀ (c : Cursor) (document : NbtDocument) (c' : Cursor),
      read .littleEndian {} c = .ok (document, c') →
        ∃ consumed, c.rest = consumed ++ c'.rest ∧
          write .littleEndian {} document = .ok consumed) := by
  constructor
  · intro hall
    obtain ⟨consumed, -, hwrite⟩ := hall { maxCollectionLength := 0 }
      (Cursor.start [10, 0, 0, 1, 0, 0, 5, 0])
      ⟨[], .compound [([], { type := .byte, integerValue := 5 })]⟩ ⟨8, []⟩ rfl
    cases hwrite
  · intro hall
    obtain ⟨consumed, hrest, hwrite⟩ := hall (Cursor.start [5, 0, 0, 1, 0, 0x80, 0x7f])
      ⟨[], { type := .float, floatingValue := 0x7ff8000020000000 }⟩ ⟨7, []⟩ rfl
    have hwritten :
        write .littleEndian {} ⟨[], { type := .float, floatingValue := 0x7ff8000020000000 }⟩ =
          .ok [5, 0, 0, 1, 0, 0xc0, 0x7f] := rfl
    obtain rfl := Except.ok.inj (hwritten.symm.trans hwrite)
    exact absurd hrest (by decide)

end BedrockNbt

end BedrockProtocol
