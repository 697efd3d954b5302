import BedrockProtocol.Nbt.BedrockNbt

/-!
# What the NBT writer writes, the reader reads

The induction is over the value tree.  A payload written at some depth and count
is read at the same depth and count, and both sides leave the same count behind,
so the limits that let the writer through let the reader through.
-/

namespace BedrockProtocol

namespace BedrockNbt

open BinaryStream

section Pieces

variable {encoding : BedrockNbtEncoding} {limits : BedrockNbtLimits}

@[simp] theorem checkedTagType_toByte (type : NbtTagType) :
    checkedTagType type.toByte = .ok type := by
  cases type <;> rfl

theorem reads_tagType (type : NbtTagType) {α : Type} {k : NbtTagType → Reader α} {a : α}
    {bytes : List UInt8} (hk : Reads (k type) bytes a) :
    Reads (do let raw ← readU8; let type ← checkedTagType raw; k type)
      (type.toByte :: bytes) a := by
  refine (reads_readU8 type.toByte).bind_cons ?_
  exact (Reads.lift (checkedTagType_toByte type)).bind_nil hk

theorem reads_readInt32 {value : ℤ} (h : InSigned 32 value) :
    Reads (readInt32 encoding) (writeInt32 encoding value) value := by
  cases encoding with
  | littleEndian => exact reads_readSigned (k := 4) (by omega) h
  | littleVarInt =>
      have hlt := toUnsigned_lt 32 value
      have hread := (reads_readVarUInt (encodeZigZag_lt (by omega) hlt)).map
        (f := fun encoded ↦ toSigned 32 (decodeZigZag 32 encoded))
      rwa [decodeZigZag_encodeZigZag (by omega) hlt, toSigned_toUnsigned (by omega) h] at hread

theorem reads_readInt64 {value : ℤ} (h : InSigned 64 value) :
    Reads (readInt64 encoding) (writeInt64 encoding value) value := by
  cases encoding with
  | littleEndian => exact reads_readSigned (k := 8) (by omega) h
  | littleVarInt =>
      have hlt := toUnsigned_lt 64 value
      have hread := (reads_readVarULong (encodeZigZag_lt (by omega) hlt)).map
        (f := fun encoded ↦ toSigned 64 (decodeZigZag 64 encoded))
      rwa [decodeZigZag_encodeZigZag (by omega) hlt, toSigned_toUnsigned (by omega) h] at hread

theorem inSigned_int64 (value : Int64) : InSigned 64 value.toInt :=
  ⟨value.le_toInt, value.toInt_lt⟩

theorem inSigned_int32 (value : Int32) : InSigned 32 value.toInt :=
  ⟨value.le_toInt, value.toInt_lt⟩

/-- A length the writer accepts is written as itself and accepted back. -/
theorem checkedWriteLength_eq_ok {length : ℕ} {value : ℤ}
    (h : checkedWriteLength limits length = .ok value) :
    value = length ∧ InSigned 32 value ∧ checkedReadLength limits value = .ok length := by
  unfold checkedWriteLength at h
  split at h
  · cases h
  · rename_i hfits
    obtain rfl := Except.ok.inj h
    refine ⟨rfl, ⟨by omega, by omega⟩, ?_⟩
    rw [checkedReadLength, if_neg (by omega), if_neg (by simp; omega)]
    rfl

/-- A length in front of a collection, as every collection reads it. -/
theorem reads_length {length : ℕ} {value : ℤ} (h : checkedWriteLength limits length = .ok value)
    {α : Type} {k : ℕ → Reader α} {a : α} {bytes : List UInt8} (hk : Reads (k length) bytes a) :
    Reads (do let value ← readInt32 encoding; let length ← checkedReadLength limits value; k length)
      (writeInt32 encoding value ++ bytes) a := by
  obtain ⟨-, hsigned, hlength⟩ := checkedWriteLength_eq_ok h
  exact (reads_readInt32 hsigned).bind ((Reads.lift hlength).bind_nil hk)

/-- The length of a string, and that what follows is the string. -/
theorem writeString_eq_ok {value bytes : List UInt8} {tagName : Bool}
    (h : writeString encoding limits value tagName = .ok bytes) :
    ∃ header, bytes = header ++ value ∧
      Reads (readStringLength encoding) header value.length ∧
      value.length ≤ limits.maxStringBytes ∧ ¬ (tagName = true ∧ 0 ∈ value) := by
  cases encoding with
  | littleVarInt =>
      simp only [writeString] at h
      split_ifs at h with hlimit hnull hsize
      obtain rfl := Except.ok.inj h
      exact ⟨_, rfl, reads_readVarUInt (by omega), by omega, hnull⟩
  | littleEndian =>
      simp only [writeString] at h
      split_ifs at h with hlimit hnull hsize
      obtain rfl := Except.ok.inj h
      exact ⟨_, rfl, reads_readWord (by omega), by omega, hnull⟩

theorem reads_readString {value bytes : List UInt8} {tagName : Bool}
    (h : writeString encoding limits value tagName = .ok bytes) :
    Reads (readString encoding limits tagName) bytes value := by
  obtain ⟨header, rfl, hheader, hlimit, hnull⟩ := writeString_eq_ok h
  refine hheader.bind ?_
  rw [if_neg (by omega)]
  refine reads_remaining_bind fun n hn ↦ ?_
  rw [if_neg (by omega)]
  refine (reads_readBytes value).bind_last ?_
  rw [if_neg hnull]
  exact Reads.pure value

end Pieces

mutual

/-- The value with every field that its tag does not use at its default. -/
def tidied : NbtValue → NbtValue
  | ⟨type, integerValue, floatingValue, stringValue, byteArrayValue, listElementType, listValue,
      compoundValue, intArrayValue, longArrayValue⟩ =>
    match type with
    | .endTag => {}
    | .byte => { type := .byte, integerValue }
    | .short => { type := .short, integerValue }
    | .int => { type := .int, integerValue }
    | .long => { type := .long, integerValue }
    | .float => { type := .float, floatingValue }
    | .double => { type := .double, floatingValue }
    | .byteArray => { type := .byteArray, byteArrayValue }
    | .string => { type := .string, stringValue }
    | .list => { type := .list, listElementType, listValue := tidiedItems listValue }
    | .compound => { type := .compound, compoundValue := tidiedChildren compoundValue }
    | .intArray => { type := .intArray, intArrayValue }
    | .longArray => { type := .longArray, longArrayValue }

def tidiedItems : List NbtValue → List NbtValue
  | [] => []
  | item :: items => tidied item :: tidiedItems items

def tidiedChildren : List (List UInt8 × NbtValue) → List (List UInt8 × NbtValue)
  | [] => []
  | (name, child) :: children => (name, tidied child) :: tidiedChildren children

end

mutual

/-- The value as it comes back: with the unused fields at their defaults, and every float
cast to 32 bits. -/
def kept : NbtValue → NbtValue
  | ⟨type, integerValue, floatingValue, stringValue, byteArrayValue, listElementType, listValue,
      compoundValue, intArrayValue, longArrayValue⟩ =>
    match type with
    | .endTag => {}
    | .byte => { type := .byte, integerValue }
    | .short => { type := .short, integerValue }
    | .int => { type := .int, integerValue }
    | .long => { type := .long, integerValue }
    | .float => { type := .float, floatingValue := widen (narrow floatingValue) }
    | .double => { type := .double, floatingValue }
    | .byteArray => { type := .byteArray, byteArrayValue }
    | .string => { type := .string, stringValue }
    | .list => { type := .list, listElementType, listValue := keptItems listValue }
    | .compound => { type := .compound, compoundValue := keptChildren compoundValue }
    | .intArray => { type := .intArray, intArrayValue }
    | .longArray => { type := .longArray, longArrayValue }

def keptItems : List NbtValue → List NbtValue
  | [] => []
  | item :: items => kept item :: keptItems items

def keptChildren : List (List UInt8 × NbtValue) → List (List UInt8 × NbtValue)
  | [] => []
  | (name, child) :: children => (name, kept child) :: keptChildren children

end

/-- Every float in the tree is one that the cast to 32 bits keeps. -/
inductive FloatsRepresentable : NbtValue → Prop
  | intro {value : NbtValue} :
      (value.type = .float → Representable value.floatingValue) →
      (value.type = .list → ∀ item ∈ value.listValue, FloatsRepresentable item) →
      (value.type = .compound → ∀ child ∈ value.compoundValue, FloatsRepresentable child.2) →
      FloatsRepresentable value

theorem keptItems_eq {items : List NbtValue} (h : ∀ item ∈ items, kept item = tidied item) :
    keptItems items = tidiedItems items := by
  induction items with
  | nil => rfl
  | cons item items ih =>
      rw [keptItems, tidiedItems, h item (by simp), ih fun i hi ↦ h i (by simp [hi])]

theorem keptChildren_eq {children : List (List UInt8 × NbtValue)}
    (h : ∀ child ∈ children, kept child.2 = tidied child.2) :
    keptChildren children = tidiedChildren children := by
  induction children with
  | nil => rfl
  | cons child children ih =>
      obtain ⟨name, child⟩ := child
      rw [keptChildren, tidiedChildren, h (name, child) (by simp), ih fun c hc ↦ h c (by simp [hc])]

/-- Nothing but the unused fields is lost when the cast keeps the floats. -/
theorem FloatsRepresentable.kept_eq_tidied {value : NbtValue} (h : FloatsRepresentable value) :
    kept value = tidied value := by
  induction h with
  | @intro value hfloat _ _ hlist hcompound =>
  obtain ⟨type, integer, bits, text, array, elementType, items, children, ints, longs⟩ := value
  cases type with
  | float =>
      have hbits : widen (narrow bits) = bits := hfloat rfl
      simp only [kept, tidied, hbits]
  | list => simp only [kept, tidied, keptItems_eq (hlist rfl)]
  | compound => simp only [kept, tidied, keptChildren_eq (hcompound rfl)]
  | _ => simp only [kept, tidied]

section RoundTrip

variable (encoding : BedrockNbtEncoding) (limits : BedrockNbtLimits)

/-- Whatever the writer makes of a value, at any depth and count, the reader
takes back. -/
def ReadsBack (value : NbtValue) : Prop :=
  ∀ depth total bytes total', writePayload encoding limits depth total value = .ok (bytes, total') →
    Reads (readPayload encoding limits (limits.maxDepth + 1 - depth) value.type total) bytes
      (kept value, total')

variable {encoding limits}

theorem reads_readItems {depth : ℕ} {elementType : NbtTagType} (items : List NbtValue)
    (h : ∀ item ∈ items, ReadsBack encoding limits item) (total : ℕ) {bytes : List UInt8}
    {total' : ℕ}
    (hwrite : writeItems encoding limits depth total elementType items = .ok (bytes, total')) :
    Reads (readItems (readPayload encoding limits (limits.maxDepth + 1 - depth) elementType)
      items.length total) bytes (keptItems items, total') := by
  induction items generalizing total bytes with
  | nil =>
      rw [writeItems] at hwrite
      obtain ⟨rfl, rfl⟩ := Prod.mk.inj (Except.ok.inj hwrite)
      exact Reads.pure _
  | cons item items ih =>
      rw [writeItems] at hwrite
      split_ifs at hwrite with htype
      obtain ⟨⟨first, total₁⟩, hfirst, hwrite⟩ := bind_eq_ok.mp hwrite
      obtain ⟨⟨rest, total₂⟩, hrest, hwrite⟩ := bind_eq_ok.mp hwrite
      obtain ⟨rfl, rfl⟩ := Prod.mk.inj (Except.ok.inj hwrite)
      rw [not_not] at htype
      have hitem := h item (by simp) depth total first total₁ hfirst
      rw [htype] at hitem
      exact hitem.bind ((ih (fun j hj ↦ h j (by simp [hj])) total₁ hrest).bind_last
        (Reads.pure _))

theorem reads_readChildren {depth : ℕ} (children : List (List UInt8 × NbtValue))
    (h : ∀ child ∈ children, ReadsBack encoding limits child.2) (turns total : ℕ)
    (hturns : children.length < turns) {bytes : List UInt8} {total' : ℕ}
    (hwrite : writeChildren encoding limits depth total children = .ok (bytes, total')) :
    Reads (readChildren encoding limits
        (readPayload encoding limits (limits.maxDepth + 1 - depth)) turns total)
      (bytes ++ [NbtTagType.endTag.toByte]) (keptChildren children, total') := by
  induction children generalizing turns total bytes with
  | nil =>
      obtain ⟨turns, rfl⟩ : ∃ t, turns = t + 1 := ⟨turns - 1, by simp at hturns; omega⟩
      rw [writeChildren] at hwrite
      obtain ⟨rfl, rfl⟩ := Prod.mk.inj (Except.ok.inj hwrite)
      exact reads_tagType .endTag (Reads.pure _)
  | cons child children ih =>
      obtain ⟨name, child⟩ := child
      rw [List.length_cons] at hturns
      obtain ⟨turns, rfl⟩ : ∃ t, turns = t + 1 := ⟨turns - 1, by omega⟩
      rw [writeChildren] at hwrite
      split_ifs at hwrite with hend
      obtain ⟨nameBytes, hname, hwrite⟩ := bind_eq_ok.mp hwrite
      obtain ⟨⟨first, total₁⟩, hfirst, hwrite⟩ := bind_eq_ok.mp hwrite
      obtain ⟨⟨rest, total₂⟩, hrest, hwrite⟩ := bind_eq_ok.mp hwrite
      obtain ⟨rfl, rfl⟩ := Prod.mk.inj (Except.ok.inj hwrite)
      have hchild := h (name, child) (by simp) depth total first total₁ hfirst
      have hothers := ih (fun j hj ↦ h j (by simp [hj])) turns total₁ (by omega) hrest
      rw [List.cons_append, List.append_assoc, List.append_assoc]
      refine reads_tagType child.type ?_
      rw [if_neg hend]
      exact (reads_readString hname).bind (hchild.bind (hothers.bind_last (Reads.pure _)))

/-- The writer is past its checks, and so is the reader. -/
theorem writePayload_eq_ok {depth total : ℕ} {value : NbtValue} {r : List UInt8 × ℕ}
    (h : writePayload encoding limits depth total value = .ok r) :
    depth ≤ limits.maxDepth ∧ ∃ total₁, accountValue limits total = .ok total₁ := by
  cases value
  rw [writePayload] at h
  by_cases hdepth : limits.maxDepth < depth
  · rw [if_pos hdepth] at h
    cases h
  · rw [if_neg hdepth] at h
    obtain ⟨total₁, haccount, -⟩ := bind_eq_ok.mp h
    exact ⟨by omega, total₁, haccount⟩

theorem reads_readPayload {depth total total₁ : ℕ} {type : NbtTagType} {bytes : List UInt8}
    {r : NbtValue × ℕ} (hdepth : depth ≤ limits.maxDepth)
    (haccount : accountValue limits total = .ok total₁)
    (hbody : Reads (readBody encoding limits
      (readPayload encoding limits (limits.maxDepth + 1 - (depth + 1))) type total₁) bytes r) :
    Reads (readPayload encoding limits (limits.maxDepth + 1 - depth) type total) bytes r := by
  have hlevels : limits.maxDepth + 1 - depth = limits.maxDepth + 1 - (depth + 1) + 1 := by omega
  rw [hlevels, readPayload]
  exact (Reads.lift haccount).bind_nil hbody

theorem checkedInteger_eq_ok {bits : ℕ} {value : Int64} {tagName : String} {checked : ℤ}
    (h : checkedInteger bits value tagName = .ok checked) :
    checked = value.toInt ∧ InSigned bits value.toInt := by
  unfold checkedInteger at h
  split_ifs at h with hrange
  exact ⟨(Except.ok.inj h).symm, hrange⟩

/-- An integer tag, written after its range check. -/
theorem reads_checkedInteger {bits total total₁ : ℕ} {value : Int64} {tagName : String}
    {type : NbtTagType} {read : Reader ℤ} {write : ℤ → List UInt8} {bytes : List UInt8}
    (hread : ∀ v, InSigned bits v → Reads read (write v) v)
    (h : (do
      let checked ← checkedInteger bits value tagName
      pure (write checked, total) : Except String _) = .ok (bytes, total₁)) :
    Reads (do
      let v ← read
      pure (({ type, integerValue := .ofInt v } : NbtValue), total)) bytes
        ({ type, integerValue := value }, total₁) := by
  obtain ⟨checked, hchecked, hbytes⟩ := bind_eq_ok.mp h
  obtain ⟨rfl, hrange⟩ := checkedInteger_eq_ok hchecked
  obtain ⟨rfl, rfl⟩ := Prod.mk.inj (Except.ok.inj hbytes)
  refine (hread _ hrange).bind_last ?_
  rw [Int64.ofInt_toInt]
  exact Reads.pure _

/-- The elements of an array, each of `k` bytes. -/
theorem reads_elements {α : Type} {toInt : α → ℤ} {k : ℕ} (hk : 0 < k)
    (hrange : ∀ a, InSigned (8 * k) (toInt a)) (items : List α) :
    Reads (Reader.many (readSigned k) items.length)
      (items.flatMap fun item ↦ writeSigned k (toInt item)) (items.map toInt) :=
  Reads.many items fun item _ ↦ reads_readSigned hk (hrange item)

theorem length_flatMap_writeSigned {α : Type} (k : ℕ) (toInt : α → ℤ) (items : List α) :
    (items.flatMap fun item ↦ writeSigned k (toInt item)).length = items.length * k := by
  induction items with
  | nil => simp
  | cons item items ih =>
      rw [List.flatMap_cons, List.length_append, length_writeSigned, ih, List.length_cons]
      ring

/-- Every child takes at least its tag byte. -/
theorem length_le_of_writeChildren {depth : ℕ} (children : List (List UInt8 × NbtValue))
    {total total' : ℕ} {bytes : List UInt8}
    (hwrite : writeChildren encoding limits depth total children = .ok (bytes, total')) :
    children.length ≤ bytes.length := by
  induction children generalizing total bytes with
  | nil => simp
  | cons child children ih =>
      rw [writeChildren] at hwrite
      split_ifs at hwrite with hend
      obtain ⟨nameBytes, -, hwrite⟩ := bind_eq_ok.mp hwrite
      obtain ⟨⟨first, total₁⟩, -, hwrite⟩ := bind_eq_ok.mp hwrite
      obtain ⟨⟨rest, total₂⟩, hrest, hwrite⟩ := bind_eq_ok.mp hwrite
      obtain ⟨rfl, rfl⟩ := Prod.mk.inj (Except.ok.inj hwrite)
      have := ih hrest
      simp only [List.length_cons, List.length_append]
      omega

/-- The induction over the value tree. -/
theorem readsBack : ∀ value, ReadsBack encoding limits value := by
  intro value
  obtain ⟨type, integer, bits, text, array, elementType, items, children, ints, longs⟩ := value
  have hlist : ∀ item ∈ items, ReadsBack encoding limits item := fun item hitem ↦ readsBack item
  have hcompound : ∀ child ∈ children, ReadsBack encoding limits child.2 :=
    fun child hchild ↦ readsBack child.2
  intro depth total bytes total' hwrite
  obtain ⟨hdepth, total₁, haccount⟩ := writePayload_eq_ok hwrite
  rw [writePayload, if_neg (by omega), haccount, ok_bind] at hwrite
  refine reads_readPayload hdepth haccount ?_
  cases type with
  | endTag =>
      obtain ⟨rfl, rfl⟩ := Prod.mk.inj (Except.ok.inj hwrite)
      exact Reads.pure _
  | byte => exact reads_checkedInteger (fun _ h ↦ reads_readSigned (by omega) h) hwrite
  | short => exact reads_checkedInteger (fun _ h ↦ reads_readSigned (by omega) h) hwrite
  | int => exact reads_checkedInteger (fun _ h ↦ reads_readInt32 h) hwrite
  | long =>
      obtain ⟨rfl, rfl⟩ := Prod.mk.inj (Except.ok.inj hwrite)
      refine (reads_readInt64 (inSigned_int64 integer)).bind_last ?_
      rw [Int64.ofInt_toInt]
      exact Reads.pure _
  | float =>
      obtain ⟨rfl, rfl⟩ := Prod.mk.inj (Except.ok.inj hwrite)
      refine (reads_readWord (narrow bits).toNat_lt).bind_last ?_
      rw [UInt32.ofNat_toNat]
      exact Reads.pure _
  | double =>
      obtain ⟨rfl, rfl⟩ := Prod.mk.inj (Except.ok.inj hwrite)
      refine (reads_readWord bits.toNat_lt).bind_last ?_
      rw [UInt64.ofNat_toNat]
      exact Reads.pure _
  | byteArray =>
      obtain ⟨length, hlength, hwrite⟩ := bind_eq_ok.mp hwrite
      obtain ⟨rfl, rfl⟩ := Prod.mk.inj (Except.ok.inj hwrite)
      refine reads_length hlength (reads_remaining_bind fun n hn ↦ ?_)
      rw [if_neg (by omega)]
      exact (reads_readBytes array).bind_last (Reads.pure _)
  | string =>
      obtain ⟨written, hwritten, hwrite⟩ := bind_eq_ok.mp hwrite
      obtain ⟨rfl, rfl⟩ := Prod.mk.inj (Except.ok.inj hwrite)
      exact (reads_readString hwritten).bind_last (Reads.pure _)
  | list =>
      simp only at hwrite
      split_ifs at hwrite with hend
      obtain ⟨length, hlength, hwrite⟩ := bind_eq_ok.mp hwrite
      obtain ⟨⟨written, total₂⟩, hwritten, hwrite⟩ := bind_eq_ok.mp hwrite
      obtain ⟨rfl, rfl⟩ := Prod.mk.inj (Except.ok.inj hwrite)
      refine reads_tagType elementType (reads_length hlength ?_)
      rw [if_neg (by simpa using hend)]
      exact (reads_readItems items hlist total₁ hwritten).bind_last (Reads.pure _)
  | compound =>
      simp only at hwrite
      split_ifs at hwrite with hlimit
      obtain ⟨⟨written, total₂⟩, hwritten, hwrite⟩ := bind_eq_ok.mp hwrite
      obtain ⟨rfl, rfl⟩ := Prod.mk.inj (Except.ok.inj hwrite)
      refine reads_remaining_bind fun n hn ↦ ?_
      have hturns : children.length < n + 1 := by
        have hchildren := length_le_of_writeChildren children hwritten
        have hbytes : written.length ≤ n := le_trans (by simp) hn
        omega
      exact (reads_readChildren children hcompound (n + 1) total₁ hturns hwritten).bind_last
        (Reads.pure _)
  | intArray =>
      obtain ⟨length, hlength, hwrite⟩ := bind_eq_ok.mp hwrite
      obtain ⟨rfl, rfl⟩ := Prod.mk.inj (Except.ok.inj hwrite)
      refine reads_length hlength (reads_remaining_bind fun n hn ↦ ?_)
      rw [length_flatMap_writeSigned] at hn
      rw [if_neg (by omega)]
      refine (reads_elements (by omega) inSigned_int32 ints).bind_last ?_
      have hback : (ints.map Int32.toInt).map Int32.ofInt = ints :=
        Function.LeftInverse.list_map Int32.ofInt_toInt ints
      rw [hback]
      exact Reads.pure _
  | longArray =>
      obtain ⟨length, hlength, hwrite⟩ := bind_eq_ok.mp hwrite
      obtain ⟨rfl, rfl⟩ := Prod.mk.inj (Except.ok.inj hwrite)
      refine reads_length hlength (reads_remaining_bind fun n hn ↦ ?_)
      rw [length_flatMap_writeSigned] at hn
      rw [if_neg (by omega)]
      refine (reads_elements (by omega) inSigned_int64 longs).bind_last ?_
      have hback : (longs.map Int64.toInt).map Int64.ofInt = longs :=
        Function.LeftInverse.list_map Int64.ofInt_toInt longs
      rw [hback]
      exact Reads.pure _
termination_by value => sizeOf value
decreasing_by
  · have := List.sizeOf_lt_of_mem hitem
    simp +arith
    omega
  · have := List.sizeOf_lt_of_mem hchild
    obtain ⟨name, child⟩ := child
    simp +arith at this ⊢
    omega

/-- The document with its unused fields at their defaults; an end tag has no
name. -/
def tidiedDocument (document : NbtDocument) : NbtDocument :=
  if document.root.type = .endTag then ⟨[], {}⟩ else ⟨document.name, tidied document.root⟩

/-- The document as it comes back. -/
def keptDocument (document : NbtDocument) : NbtDocument :=
  if document.root.type = .endTag then ⟨[], {}⟩ else ⟨document.name, kept document.root⟩

/-- The reader consumes exactly the bytes of a document that was written. -/
theorem reads_read_kept {document : NbtDocument} {bytes : List UInt8}
    (hwrite : write encoding limits document = .ok bytes) :
    Reads (read encoding limits) bytes (keptDocument document) := by
  unfold write at hwrite
  split_ifs at hwrite with hend
  · obtain rfl := Except.ok.inj hwrite
    refine reads_tagType document.root.type ?_
    rw [if_pos hend, keptDocument, if_pos hend]
    exact Reads.pure _
  · obtain ⟨name, hname, hwrite⟩ := bind_eq_ok.mp hwrite
    obtain ⟨⟨payload, total⟩, hpayload, hwrite⟩ := bind_eq_ok.mp hwrite
    obtain rfl := Except.ok.inj hwrite
    refine reads_tagType document.root.type ?_
    rw [if_neg hend, keptDocument, if_neg hend]
    exact (reads_readString hname).bind
      ((readsBack document.root 0 0 payload total hpayload).bind_last (Reads.pure _))

theorem reads_read {document : NbtDocument} (hfloats : FloatsRepresentable document.root)
    {bytes : List UInt8} (hwrite : write encoding limits document = .ok bytes) :
    Reads (read encoding limits) bytes (tidiedDocument document) := by
  have hkept : keptDocument document = tidiedDocument document := by
    rw [keptDocument, tidiedDocument, hfloats.kept_eq_tidied]
  rw [← hkept]
  exact reads_read_kept hwrite

/-- A document that was written is read back, whatever follows it, from exactly
the bytes that were written. -/
theorem read_write (document : NbtDocument) (hfloats : FloatsRepresentable document.root)
    {bytes : List UInt8} (hwrite : write encoding limits document = .ok bytes)
    (suffix : List UInt8) :
    read encoding limits (Cursor.start (bytes ++ suffix)) =
      .ok (tidiedDocument document, ⟨bytes.length, suffix⟩) :=
  (reads_read hfloats hwrite).start suffix

/-- The first byte of a document is the tag of its root. -/
theorem write_head {document : NbtDocument} {bytes : List UInt8}
    (hwrite : write encoding limits document = .ok bytes) :
    bytes.head? = some document.root.type.toByte := by
  unfold write at hwrite
  split_ifs at hwrite with hend
  · obtain rfl := Except.ok.inj hwrite
    rfl
  · obtain ⟨name, -, hwrite⟩ := bind_eq_ok.mp hwrite
    obtain ⟨⟨payload, total⟩, -, hwrite⟩ := bind_eq_ok.mp hwrite
    obtain rfl := Except.ok.inj hwrite
    rfl

@[simp] theorem tidied_type (value : NbtValue) : (tidied value).type = value.type := by
  obtain ⟨type⟩ := value
  cases type <;> rfl

theorem find?_tidiedChildren (children : List (List UInt8 × NbtValue)) (name : List UInt8) :
    ((tidiedChildren children).find? fun child ↦ child.1 = name).map Prod.snd =
      ((children.find? fun child ↦ child.1 = name).map Prod.snd).map tidied := by
  induction children with
  | nil => rfl
  | cons child children ih =>
      obtain ⟨key, value⟩ := child
      rw [tidiedChildren, List.find?_cons, List.find?_cons]
      by_cases hname : key = name
      · simp [hname]
      · simpa [hname] using ih

/-- The children of a compound are found under their names. -/
theorem find_tidied (value : NbtValue) (name : List UInt8) :
    (tidied value).find name = (value.find name).map tidied := by
  obtain ⟨type⟩ := value
  cases type <;>
    first
    | exact find?_tidiedChildren _ name
    | rfl

/-- The list of the one float `1.5`. -/
def floatList : NbtValue where
  type := .list
  listElementType := .float
  listValue := [{ type := .float, floatingValue := 0x3ff8000000000000 }]

/-- A compound with a child that is the list of one float. -/
def floatDocument : NbtDocument :=
  ⟨[0x61], { type := .compound, compoundValue := [([0x62], floatList)] }⟩

theorem floatDocument_floats : FloatsRepresentable floatDocument.root := by
  have hfloat : FloatsRepresentable { type := .float, floatingValue := 0x3ff8000000000000 } :=
    .intro (fun _ ↦ by decide) (by simp) (by simp)
  have hlist : FloatsRepresentable floatList :=
    .intro (by simp [floatList]) (fun _ ↦ by simpa [floatList] using hfloat) (by simp [floatList])
  exact .intro (by simp [floatDocument]) (by simp [floatDocument])
    (fun _ ↦ by simpa [floatDocument] using hlist)

theorem read_write_floatDocument :
    ∃ bytes, write .littleVarInt {} floatDocument = .ok bytes ∧
      read .littleVarInt {} (Cursor.start (bytes ++ [7])) =
        .ok (tidiedDocument floatDocument, ⟨bytes.length, [7]⟩) :=
  ⟨_, rfl, read_write floatDocument floatDocument_floats rfl [7]⟩

/-- Data in a field that the tag does not use is not written. -/
theorem read_write_unused_field :
    write .littleEndian {}
        ⟨[], { type := .byte, integerValue := 1, stringValue := [0x78] }⟩ = .ok [1, 0, 0, 1] ∧
    read .littleEndian {} (Cursor.start [1, 0, 0, 1]) ≠
      .ok (⟨[], { type := .byte, integerValue := 1, stringValue := [0x78] }⟩, ⟨4, []⟩) := by
  refine ⟨rfl, fun h ↦ ?_⟩
  have hread : read .littleEndian {} (Cursor.start [1, 0, 0, 1]) =
      .ok (⟨[], { type := .byte, integerValue := 1 }⟩, ⟨4, []⟩) := rfl
  rw [hread] at h
  have := congrArg (fun r ↦ r.1.root.stringValue) (Except.ok.inj h)
  simp at this

end RoundTrip

end BedrockNbt

end BedrockProtocol
