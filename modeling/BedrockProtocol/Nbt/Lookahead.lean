import BedrockProtocol.Lib.SelfContained
import BedrockProtocol.Nbt.RoundTrip

/-!
# What the NBT reader takes and what it makes

The readers of NBT look at how much input is left only to stop early, so a document is decided by
the bytes that were consumed for it.  Whatever bytes they are, the document has nothing in the
fields that its tags do not use and floats that a cast to 32 bits keeps.
-/

namespace BedrockProtocol

namespace BinaryStream

theorem selfContained_readU8 : SelfContained readU8 := SelfContained.byte _

theorem selfContained_readWord (k : ℕ) : SelfContained (readWord k) :=
  (SelfContained.take _ _).map leValue

theorem selfContained_readSigned (k : ℕ) : SelfContained (readSigned k) :=
  (selfContained_readWord k).map (toSigned (8 * k))

theorem consumes_readSigned (k : ℕ) : Consumes (readSigned k) k := Consumes.take.map.map

theorem selfContained_readVarUInt : SelfContained readVarUInt :=
  SelfContained.readLeb128 (fun _ ↦ selfContained_readU8) _ _ _ _ _

theorem selfContained_readVarULong : SelfContained readVarULong :=
  SelfContained.readLeb128 (fun _ ↦ selfContained_readU8) _ _ _ _ _

end BinaryStream

namespace BedrockNbt

open BinaryStream

variable (encoding : BedrockNbtEncoding) (limits : BedrockNbtLimits)

/-! ## The bytes of a document -/

theorem selfContained_readInt32 : SelfContained (readInt32 encoding) := by
  cases encoding with
  | littleVarInt => exact selfContained_readVarUInt.map _
  | littleEndian => exact selfContained_readSigned 4

theorem selfContained_readInt64 : SelfContained (readInt64 encoding) := by
  cases encoding with
  | littleVarInt => exact selfContained_readVarULong.map _
  | littleEndian => exact selfContained_readSigned 8

theorem selfContained_readStringLength : SelfContained (readStringLength encoding) := by
  cases encoding with
  | littleVarInt => exact selfContained_readVarUInt
  | littleEndian => exact selfContained_readWord 2

/-- A guard on the bytes left, in front of a reader that takes them one by one. -/
theorem selfContained_guardedBytes {α : Type} {k : List UInt8 → Reader α}
    (hk : ∀ bytes, SelfContained (k bytes)) (hnone : ∀ bytes, Consumes (k bytes) 0) (length : ℕ)
    (e : String) :
    SelfContained (do
      if (← Reader.remaining) < length then throw e
      else
        let bytes ← readBytes length
        k bytes) := by
  have hbytes : SelfContained (readBytes length >>= k) := (SelfContained.take length _).bind hk
  have hsize : Consumes (readBytes length >>= k) (length * 1) := by
    rw [Nat.mul_one]
    exact Consumes.take.bind hnone
  have hguarded := SelfContained.guarded (e := e) Nat.one_pos hbytes hsize
  simpa only [Nat.div_one] using hguarded

theorem selfContained_readString (tagName : Bool) :
    SelfContained (readString encoding limits tagName) := by
  refine (selfContained_readStringLength encoding).bind fun length ↦ ?_
  split
  · exact SelfContained.throw _
  · refine selfContained_guardedBytes (fun value ↦ ?_) (fun value ↦ ?_) length _
    · split
      · exact SelfContained.throw _
      · exact SelfContained.pure _
    · split
      · exact Consumes.throw _
      · exact Consumes.pure _

theorem selfContained_readItems {readItem : ℕ → Reader (NbtValue × ℕ)}
    (hitem : ∀ total, SelfContained (readItem total)) (length total : ℕ) :
    SelfContained (readItems readItem length total) := by
  induction length generalizing total with
  | zero => exact SelfContained.pure _
  | succ length ih =>
      exact (hitem total).bind fun item ↦ (ih item.2).bind fun items ↦ SelfContained.pure _

/-- As many turns as there are bytes are enough for the children. -/
theorem recognizes_readChildren_turns {readChild : NbtTagType → ℕ → Reader (NbtValue × ℕ)}
    (hchild : ∀ type total, SelfContained (readChild type total)) (fuel total : ℕ) :
    Recognizes (readChildren encoding limits readChild fuel total) fun bytes children ↦
      ∀ fuel', bytes.length ≤ fuel' →
        Reads (readChildren encoding limits readChild fuel' total) bytes children := by
  induction fuel generalizing total with
  | zero => exact Recognizes.throw _
  | succ fuel ih =>
      refine Recognizes.bind Recognizes.byte ?_
      rintro _ raw rfl
      refine Recognizes.bind (P := fun xs type ↦ xs = [] ∧ checkedTagType raw = .ok type)
        (Recognizes.lift fun type htype ↦ ⟨rfl, htype⟩) ?_
      rintro _ type ⟨rfl, htype⟩
      have hturn {xs : List UInt8} {children : List (List UInt8 × NbtValue) × ℕ}
          (h : ∀ fuel', xs.length ≤ fuel' → Reads (do
            if type = .endTag then pure ([], total)
            else
              let childName ← readString encoding limits true
              let child ← readChild type total
              let children ← readChildren encoding limits readChild fuel' child.2
              pure ((childName, child.1) :: children.1, children.2)) xs children) :
          ∀ fuel', ([raw] ++ ([] ++ xs)).length ≤ fuel' →
            Reads (readChildren encoding limits readChild fuel' total) ([raw] ++ ([] ++ xs))
              children := by
        intro fuel' hfuel
        simp only [List.nil_append, List.singleton_append, List.length_cons] at hfuel ⊢
        obtain ⟨fuel', rfl⟩ : ∃ f, fuel' = f + 1 := ⟨fuel' - 1, by omega⟩
        exact (Reads.byte raw).bind_cons ((Reads.lift htype).bind_nil (h fuel' (by omega)))
      split
      · rename_i hend
        refine Recognizes.pure (hturn fun fuel' _ ↦ ?_)
        rw [if_pos hend]
        exact Reads.pure _
      · rename_i hend
        refine Recognizes.bind (selfContained_readString encoding limits true)
          fun xs childName hname ↦ Recognizes.bind (hchild type total) fun ys child hread ↦
            Recognizes.bind (ih child.2) fun zs children hrest ↦
              Recognizes.pure (hturn fun fuel' hfuel ↦ ?_)
        rw [if_neg hend]
        refine hname.bind (hread.bind ((hrest fuel' ?_).bind (Reads.pure _)))
        simp only [List.length_append] at hfuel
        omega

theorem selfContained_readBody {readNested : NbtTagType → ℕ → Reader (NbtValue × ℕ)}
    (hnested : ∀ type total, SelfContained (readNested type total)) (type : NbtTagType)
    (total : ℕ) : SelfContained (readBody encoding limits readNested type total) := by
  cases type with
  | endTag => exact SelfContained.pure _
  | byte => exact (selfContained_readSigned 1).bind fun _ ↦ SelfContained.pure _
  | short => exact (selfContained_readSigned 2).bind fun _ ↦ SelfContained.pure _
  | int => exact (selfContained_readInt32 encoding).bind fun _ ↦ SelfContained.pure _
  | long => exact (selfContained_readInt64 encoding).bind fun _ ↦ SelfContained.pure _
  | float => exact (selfContained_readWord 4).bind fun _ ↦ SelfContained.pure _
  | double => exact (selfContained_readWord 8).bind fun _ ↦ SelfContained.pure _
  | string =>
      exact (selfContained_readString encoding limits false).bind fun _ ↦ SelfContained.pure _
  | byteArray =>
      refine (selfContained_readInt32 encoding).bind fun value ↦
        (SelfContained.lift _).bind fun length ↦ ?_
      exact selfContained_guardedBytes (fun _ ↦ SelfContained.pure _) (fun _ ↦ Consumes.pure _)
        length _
  | list =>
      refine selfContained_readU8.bind fun raw ↦ (SelfContained.lift _).bind fun elementType ↦
        (selfContained_readInt32 encoding).bind fun value ↦
          (SelfContained.lift _).bind fun length ↦ ?_
      split
      · exact SelfContained.throw _
      · exact (selfContained_readItems (hnested elementType) length total).bind
          fun _ ↦ SelfContained.pure _
  | compound =>
      refine Recognizes.remaining_bind fun turns ↦ Recognizes.bind
        (recognizes_readChildren_turns encoding limits hnested (turns + 1) total)
        fun xs children hchildren ↦ Recognizes.pure ?_
      rw [List.append_nil]
      exact reads_remaining_bind fun n hn ↦ (hchildren (n + 1) (by omega)).bind_last (Reads.pure _)
  | intArray =>
      refine (selfContained_readInt32 encoding).bind fun value ↦
        (SelfContained.lift _).bind fun length ↦ ?_
      exact SelfContained.guarded (by decide)
        (((selfContained_readSigned 4).many length).bind fun _ ↦ SelfContained.pure _)
        (((consumes_readSigned 4).many length).bind fun _ ↦ Consumes.pure _)
  | longArray =>
      refine (selfContained_readInt32 encoding).bind fun value ↦
        (SelfContained.lift _).bind fun length ↦ ?_
      exact SelfContained.guarded (by decide)
        (((selfContained_readSigned 8).many length).bind fun _ ↦ SelfContained.pure _)
        (((consumes_readSigned 8).many length).bind fun _ ↦ Consumes.pure _)

theorem selfContained_readPayload (levels : ℕ) (type : NbtTagType) (total : ℕ) :
    SelfContained (readPayload encoding limits levels type total) := by
  induction levels generalizing type total with
  | zero => exact SelfContained.throw _
  | succ levels ih =>
      exact (SelfContained.lift _).bind fun total ↦ selfContained_readBody encoding limits ih type _

/-- A document is decided by its bytes. -/
theorem selfContained_read : SelfContained (read encoding limits) := by
  refine selfContained_readU8.bind fun raw ↦ (SelfContained.lift _).bind fun type ↦ ?_
  split
  · exact SelfContained.pure _
  · exact (selfContained_readString encoding limits true).bind fun name ↦
      (selfContained_readPayload encoding limits _ type 0).bind fun root ↦ SelfContained.pure _

/-! ## The document of the bytes -/

/-- A value with nothing in unused fields, whose floats are floats. -/
def Clean (value : NbtValue) : Prop := tidied value = value ∧ FloatsRepresentable value

/-- A value without floats and parts is clean when it is tidy. -/
theorem Clean.leaf {value : NbtValue} (htidy : tidied value = value) (hfloat : value.type ≠ .float)
    (hlist : value.type ≠ .list) (hcompound : value.type ≠ .compound) : Clean value :=
  ⟨htidy, .intro (absurd · hfloat) (absurd · hlist) (absurd · hcompound)⟩

theorem tidiedItems_of_clean {items : List NbtValue} (h : ∀ item ∈ items, Clean item) :
    tidiedItems items = items := by
  induction items with
  | nil => rfl
  | cons item items ih =>
      rw [tidiedItems, (h item (by simp)).1, ih fun i hi ↦ h i (by simp [hi])]

theorem tidiedChildren_of_clean {children : List (List UInt8 × NbtValue)}
    (h : ∀ child ∈ children, Clean child.2) : tidiedChildren children = children := by
  induction children with
  | nil => rfl
  | cons child children ih =>
      rw [tidiedChildren, (h child (by simp)).1, ih fun c hc ↦ h c (by simp [hc])]

theorem Clean.list {elementType : NbtTagType} {items : List NbtValue}
    (h : ∀ item ∈ items, Clean item) :
    Clean { type := .list, listElementType := elementType, listValue := items } := by
  refine ⟨?_, .intro (fun hfloat ↦ by cases hfloat) (fun _ item hitem ↦ (h item hitem).2)
    (fun hcompound ↦ by cases hcompound)⟩
  rw [tidied, tidiedItems_of_clean h]

theorem Clean.compound {children : List (List UInt8 × NbtValue)}
    (h : ∀ child ∈ children, Clean child.2) :
    Clean { type := .compound, compoundValue := children } := by
  refine ⟨?_, .intro (fun hfloat ↦ by cases hfloat) (fun hlist ↦ by cases hlist)
    (fun _ child hchild ↦ (h child hchild).2)⟩
  rw [tidied, tidiedChildren_of_clean h]

theorem Clean.float (bits : UInt32) : Clean { type := .float, floatingValue := widen bits } :=
  ⟨rfl, .intro (fun _ ↦ representable_widen bits) (fun hlist ↦ by cases hlist)
    (fun hcompound ↦ by cases hcompound)⟩

section Values

variable {encoding limits}

theorem yields_clean_readItems {readItem : ℕ → Reader (NbtValue × ℕ)}
    (hitem : ∀ total, Yields (readItem total) fun item ↦ Clean item.1) (length total : ℕ) :
    Yields (readItems readItem length total) fun items ↦ ∀ item ∈ items.1, Clean item := by
  induction length generalizing total with
  | zero => exact Yields.pure (by simp)
  | succ length ih =>
      refine (hitem total).bind fun item hclean ↦ (ih item.2).bind fun items hitems ↦
        Yields.pure ?_
      exact List.forall_mem_cons.mpr ⟨hclean, hitems⟩

theorem yields_clean_readChildren {readChild : NbtTagType → ℕ → Reader (NbtValue × ℕ)}
    (hchild : ∀ type total, Yields (readChild type total) fun child ↦ Clean child.1)
    (fuel total : ℕ) :
    Yields (readChildren encoding limits readChild fuel total)
      fun children ↦ ∀ child ∈ children.1, Clean child.2 := by
  induction fuel generalizing total with
  | zero => exact Yields.throw _
  | succ fuel ih =>
      refine Yields.bind_any fun raw ↦ Yields.bind_any fun type ↦ ?_
      split
      · exact Yields.pure (by simp)
      · refine Yields.bind_any fun name ↦ (hchild type total).bind fun child hclean ↦
          (ih child.2).bind fun children hchildren ↦ Yields.pure ?_
        exact List.forall_mem_cons.mpr ⟨hclean, hchildren⟩

theorem yields_clean_readBody {readNested : NbtTagType → ℕ → Reader (NbtValue × ℕ)}
    (hnested : ∀ type total, Yields (readNested type total) fun value ↦ Clean value.1)
    (type : NbtTagType) (total : ℕ) :
    Yields (readBody encoding limits readNested type total)
      fun value ↦ value.1.type = type ∧ Clean value.1 := by
  have hleaf {value : NbtValue} (htidy : tidied value = value) (hfloat : value.type ≠ .float)
      (hlist : value.type ≠ .list) (hcompound : value.type ≠ .compound) :
      Yields (pure (value, total) : Reader (NbtValue × ℕ))
        fun value' ↦ value'.1.type = value.type ∧ Clean value'.1 :=
    Yields.pure ⟨rfl, Clean.leaf htidy hfloat hlist hcompound⟩
  cases type with
  | endTag => exact hleaf rfl (by simp) (by simp) (by simp)
  | byte => exact Yields.bind_any fun _ ↦ hleaf rfl (by simp) (by simp) (by simp)
  | short => exact Yields.bind_any fun _ ↦ hleaf rfl (by simp) (by simp) (by simp)
  | int => exact Yields.bind_any fun _ ↦ hleaf rfl (by simp) (by simp) (by simp)
  | long => exact Yields.bind_any fun _ ↦ hleaf rfl (by simp) (by simp) (by simp)
  | float => exact Yields.bind_any fun bits ↦ Yields.pure ⟨rfl, Clean.float _⟩
  | double => exact Yields.bind_any fun _ ↦ hleaf rfl (by simp) (by simp) (by simp)
  | string => exact Yields.bind_any fun _ ↦ hleaf rfl (by simp) (by simp) (by simp)
  | byteArray =>
      refine Yields.bind_any fun _ ↦ Yields.bind_any fun _ ↦ Yields.bind_any fun _ ↦ ?_
      split
      · exact Yields.throw _
      · exact Yields.bind_any fun _ ↦ hleaf rfl (by simp) (by simp) (by simp)
  | list =>
      refine Yields.bind_any fun _ ↦ Yields.bind_any fun elementType ↦ Yields.bind_any fun _ ↦
        Yields.bind_any fun length ↦ ?_
      split
      · exact Yields.throw _
      · exact (yields_clean_readItems (hnested elementType) length total).bind
          fun items hitems ↦ Yields.pure ⟨rfl, Clean.list hitems⟩
  | compound =>
      exact Yields.bind_any fun turns ↦
        (yields_clean_readChildren hnested (turns + 1) total).bind
          fun children hchildren ↦ Yields.pure ⟨rfl, Clean.compound hchildren⟩
  | intArray =>
      refine Yields.bind_any fun _ ↦ Yields.bind_any fun _ ↦ Yields.bind_any fun _ ↦ ?_
      split
      · exact Yields.throw _
      · exact Yields.bind_any fun _ ↦ hleaf rfl (by simp) (by simp) (by simp)
  | longArray =>
      refine Yields.bind_any fun _ ↦ Yields.bind_any fun _ ↦ Yields.bind_any fun _ ↦ ?_
      split
      · exact Yields.throw _
      · exact Yields.bind_any fun _ ↦ hleaf rfl (by simp) (by simp) (by simp)

theorem yields_clean_readPayload (levels : ℕ) (type : NbtTagType) (total : ℕ) :
    Yields (readPayload encoding limits levels type total)
      fun value ↦ value.1.type = type ∧ Clean value.1 := by
  induction levels generalizing type total with
  | zero => exact Yields.throw _
  | succ levels ih =>
      exact Yields.bind_any fun total ↦
        yields_clean_readBody (fun type total ↦ (ih type total).mono fun _ h ↦ h.2) type total

/-- What was read has nothing in unused fields, and its floats are floats. -/
theorem yields_read : Yields (read encoding limits) fun document ↦
    tidiedDocument document = document ∧ FloatsRepresentable document.root := by
  refine Yields.bind_any fun raw ↦ Yields.bind_any fun type ↦ ?_
  split
  · exact Yields.pure ⟨rfl, (Clean.leaf rfl (by simp) (by simp) (by simp)).2⟩
  · rename_i hend
    refine Yields.bind_any fun name ↦ (yields_clean_readPayload _ type 0).bind ?_
    rintro root ⟨htype, htidy, hfloats⟩
    refine Yields.pure ⟨?_, hfloats⟩
    rw [tidiedDocument, if_neg (by rw [htype]; exact hend), htidy]

end Values

end BedrockNbt

end BedrockProtocol
