import BedrockProtocol.Nbt.Lookahead
import BedrockProtocol.Protodef.ProtoDefDecoder

/-!
# The texts that are decoded

Every reader of a type consumes what it needs and looks no further.  Apart from the types
that carry a text of the packet or of the schema, no decoded text contains the beginning of
the marker for missing bytes.
-/

namespace BedrockProtocol

namespace ProtoDefReader

theorem looksNoFurther_u8 : LooksNoFurther u8 := LooksNoFurther.byte _

theorem looksNoFurther_u16le : LooksNoFurther u16le := (LooksNoFurther.take _ _).map _

theorem looksNoFurther_u32le : LooksNoFurther u32le := (LooksNoFurther.take _ _).map _

theorem looksNoFurther_beWord (k v : ℕ) : LooksNoFurther (beWord k v) := by
  induction k generalizing v with
  | zero => exact LooksNoFurther.pure v
  | succ k ih => exact looksNoFurther_u8.bind fun b ↦ ih _

theorem looksNoFurther_leWord (k i v : ℕ) : LooksNoFurther (leWord k i v) := by
  induction k generalizing i v with
  | zero => exact LooksNoFurther.pure v
  | succ k ih => exact looksNoFurther_u8.bind fun b ↦ ih _ _

theorem looksNoFurther_u16be : LooksNoFurther u16be := looksNoFurther_beWord 2 0

theorem looksNoFurther_u32be : LooksNoFurther u32be := looksNoFurther_beWord 4 0

theorem looksNoFurther_u64be : LooksNoFurther u64be := looksNoFurther_beWord 8 0

theorem looksNoFurther_u64le : LooksNoFurther u64le := looksNoFurther_leWord 8 0 0

theorem looksNoFurther_i32le : LooksNoFurther i32le := looksNoFurther_u32le.map _

theorem looksNoFurther_i32be : LooksNoFurther i32be := looksNoFurther_u32be.map _

theorem looksNoFurther_i64le : LooksNoFurther i64le := looksNoFurther_u64le.map _

theorem looksNoFurther_i64be : LooksNoFurther i64be := looksNoFurther_u64be.map _

theorem looksNoFurther_varuint32 : LooksNoFurther varuint32 :=
  LooksNoFurther.readLeb128 (fun _ ↦ looksNoFurther_u8) _ _ _ _ _

theorem looksNoFurther_varuint64 : LooksNoFurther varuint64 :=
  LooksNoFurther.readLeb128 (fun _ ↦ looksNoFurther_u8) _ _ _ _ _

theorem looksNoFurther_varuint128 : LooksNoFurther varuint128 :=
  LooksNoFurther.readLeb128 (fun _ ↦ looksNoFurther_u8) _ _ _ _ _

theorem looksNoFurther_zigzag32 : LooksNoFurther zigzag32 := looksNoFurther_varuint32.map _

theorem looksNoFurther_zigzag64 : LooksNoFurther zigzag64 := looksNoFurther_varuint64.map _

theorem looksNoFurther_boolean : LooksNoFurther boolean := looksNoFurther_u8.map _

theorem looksNoFurther_string : LooksNoFurther string :=
  looksNoFurther_varuint32.bind fun len ↦ LooksNoFurther.take len _

theorem looksNoFurther_readBytes (count : ℕ) : LooksNoFurther (readBytes count) :=
  LooksNoFurther.take count _

end ProtoDefReader

namespace ProtoDefDecoder

open ProtoDefTypes SchemaText ElementCounts ProtoDefReader

/-! ## The marker -/

/-- The beginning of the text for a missing byte is nowhere in the text. -/
def Unmarked (value : Text) : Prop := ¬txt "<missing:" <:+: value

/-- The types whose texts come from the packet, the schema or the context. -/
def textTypes : List Text :=
  [txt "string", txt "ShortString", txt "lstring", txt "pstring", txt "pstring<latin1>",
    txt "nbtLoop", txt "native", txt "nbt", txt "lnbt", txt "switch"]

def CarriesText (type : Text) : Prop := type ∈ textTypes ∨ txt "mapper<" <+: type

instance (value : Text) : Decidable (Unmarked value) := inferInstanceAs (Decidable ¬_)

instance (type : Text) : Decidable (CarriesText type) := inferInstanceAs (Decidable (_ ∨ _))

theorem unmarked_of_forall {value : Text} (h : ∀ c ∈ value, c ≠ 0x3c) : Unmarked value := fun hmarker ↦
  h 0x3c (hmarker.subset (by decide)) rfl

/-- A text in angle brackets that is not the marker. -/
theorem unmarked_cons {value : Text} (h : ∀ c ∈ value, c ≠ 0x3c) (hhead : value.head? ≠ some 0x6d) :
    Unmarked (0x3c :: value) := by
  intro hmarker
  rcases List.infix_cons_iff.mp hmarker with hprefix | hinfix
  · obtain ⟨rest, hrest⟩ := hprefix
    have hvalue : value = txt "missing:" ++ rest := (List.cons.inj hrest).2.symm
    exact hhead (by rw [hvalue]; rfl)
  · exact unmarked_of_forall h hinfix

theorem no_bracket_decimal (n : ℕ) : ∀ c ∈ decimal n, c ≠ 0x3c := by
  rintro c hc rfl
  have hdigit := (decimal_digits hc).2
  exact absurd hdigit (by decide)

theorem no_bracket_decimalInt (z : ℤ) : ∀ c ∈ decimalInt z, c ≠ 0x3c := by
  rw [decimalInt]
  split
  · exact List.forall_mem_cons.mpr ⟨by decide, no_bracket_decimal _⟩
  · exact no_bracket_decimal _

theorem unmarked_decimal (n : ℕ) : Unmarked (decimal n) := unmarked_of_forall (no_bracket_decimal n)

theorem unmarked_decimalInt (z : ℤ) : Unmarked (decimalInt z) :=
  unmarked_of_forall (no_bracket_decimalInt z)

theorem unmarked_bool (b : Bool) : Unmarked (if b then txt "true" else txt "false") := by
  cases b <;> decide

theorem no_bracket_literal {text : Text} (h : text.all fun c ↦ decide (c ≠ 0x3c)) :
    ∀ c ∈ text, c ≠ 0x3c := forall_mem_of_all h

theorem unmarked_bufferText {digits : Text} (h : ∀ c ∈ digits, c ≠ 0x3c) :
    Unmarked (txt "<Buffer bytes:" ++ digits ++ txt ">") := by
  have hhead : some (0x42 : UInt8) ≠ some 0x6d := by decide
  refine @unmarked_cons (txt "Buffer bytes:" ++ digits ++ txt ">") (fun c hc ↦ ?_) hhead
  rcases List.mem_append.mp hc with hc | hc
  · rcases List.mem_append.mp hc with hc | hc
    · exact no_bracket_literal (by decide) c hc
    · exact h c hc
  · exact no_bracket_literal (by decide) c hc

theorem no_bracket_fixedText (bits : UInt64) : ∀ c ∈ fixedText bits, c ≠ 0x3c := by
  have hsign : ∀ c ∈ (if 2 ^ 63 ≤ bits.toNat then txt "-" else []), c ≠ 0x3c := by
    split
    · exact no_bracket_literal (by decide)
    · exact fun c hc ↦ absurd hc List.not_mem_nil
  intro c hc
  simp only [fixedText] at hc
  split at hc
  · rcases List.mem_append.mp hc with hc | hc
    · exact hsign c hc
    · exact no_bracket_literal (by decide) c hc
  · split at hc
    · rcases List.mem_append.mp hc with hc | hc
      · exact hsign c hc
      · exact no_bracket_literal (by decide) c hc
    · simp only [List.mem_append] at hc
      rcases hc with (((hc | hc) | hc) | hc) | hc
      · exact hsign c hc
      · exact no_bracket_decimal _ c hc
      · exact no_bracket_literal (by decide) c hc
      · rw [List.eq_of_mem_replicate hc]
        decide
      · exact no_bracket_decimal _ c hc

theorem no_bracket_uuidText (bytes : List UInt8) : ∀ c ∈ uuidText bytes, c ≠ 0x3c := by
  have hdigit (n : ℕ) : (txt "0123456789abcdef").getD n 0 ≠ 0x3c := by
    rw [List.getD_eq_getElem?_getD]
    cases hn : (txt "0123456789abcdef")[n]? with
    | none => decide
    | some d =>
        exact no_bracket_literal (by decide) d (List.mem_of_getElem? hn)
  intro c hc
  obtain ⟨part, hpart, hc⟩ := List.mem_flatten.mp hc
  obtain ⟨⟨b, i⟩, -, rfl⟩ := List.mem_map.mp hpart
  rcases List.mem_append.mp hc with hc | hc
  · split at hc
    · exact no_bracket_literal (by decide) c hc
    · exact absurd hc List.not_mem_nil
  · rcases List.mem_pair.mp hc with rfl | rfl
    · exact hdigit _
    · exact hdigit _

theorem no_bracket_ipAddressText (bytes : List UInt8) : ∀ c ∈ ipAddressText bytes, c ≠ 0x3c := by
  rw [ipAddressText]
  induction bytes with
  | nil => exact fun c hc ↦ absurd hc List.not_mem_nil
  | cons b bytes ih =>
      cases bytes with
      | nil => simpa using no_bracket_decimal b.toNat
      | cons b' bytes =>
          intro c hc
          rw [List.map_cons, List.map_cons, List.intercalate_cons_cons] at hc
          rcases List.mem_append.mp hc with hc | hc
          · rcases List.mem_append.mp hc with hc | hc
            · exact no_bracket_decimal _ c hc
            · exact no_bracket_literal (by decide) c hc
          · exact ih c hc

theorem no_bracket_vec3Text {x y z : Text} (hx : ∀ c ∈ x, c ≠ 0x3c) (hy : ∀ c ∈ y, c ≠ 0x3c)
    (hz : ∀ c ∈ z, c ≠ 0x3c) : ∀ c ∈ vec3Text x y z, c ≠ 0x3c := by
  have hcomma : ∀ c ∈ txt ",", c ≠ 0x3c := no_bracket_literal (by decide)
  intro c hc
  simp only [vec3Text, List.mem_append] at hc
  rcases hc with (((hc | hc) | hc) | hc) | hc
  · exact hx c hc
  · exact hcomma c hc
  · exact hy c hc
  · exact hcomma c hc
  · exact hz c hc

/-! ## The readers of the primitive types -/

/-- A field that the marker can be in only if its type carries a text. -/
def Recorded (type value : Text) : Prop := CarriesText type ∨ Unmarked value

/-- A reader of the text of a type. -/
structure ReadsText (typeName : Text) (read : Reader Text) : Prop where
  looksNoFurther : LooksNoFurther read
  recorded : Yields read (Recorded typeName)

section Primitives

variable {typeName : Text} {α : Type}

theorem readsText_map {read : Reader α} {text : α → Text} (hread : LooksNoFurther read)
    (htext : ∀ a, Unmarked (text a)) : ReadsText typeName (text <$> read) :=
  ⟨hread.map text, Yields.map ((Yields.trivial read).mono fun a _ ↦ .inr (htext a))⟩

theorem readsText_carried {read : Reader Text} (hread : LooksNoFurther read)
    (htype : CarriesText typeName) : ReadsText typeName read :=
  ⟨hread, (Yields.trivial read).mono fun _ _ ↦ .inl htype⟩

theorem readsText_unsigned {read : Reader ℕ} (hread : LooksNoFurther read) :
    ReadsText typeName (decimal <$> read) := readsText_map hread unmarked_decimal

theorem readsText_signed {read : Reader ℤ} (hread : LooksNoFurther read) :
    ReadsText typeName (decimalInt <$> read) := readsText_map hread unmarked_decimalInt

theorem readsText_toSigned {read : Reader ℕ} (w : ℕ) (hread : LooksNoFurther read) :
    ReadsText typeName ((fun n ↦ decimalInt (toSigned w n)) <$> read) :=
  readsText_map hread fun _ ↦ unmarked_decimalInt _

theorem readsText_u8 : ReadsText typeName ((fun b ↦ decimal b.toNat) <$> u8) :=
  readsText_map looksNoFurther_u8 fun _ ↦ unmarked_decimal _

theorem readsText_vec3 {read : Reader α} {text : α → Text} (hread : LooksNoFurther read)
    (htext : Yields read fun a ↦ ∀ c ∈ text a, c ≠ 0x3c) :
    ReadsText typeName (do
      let x ← read
      let y ← read
      let z ← read
      pure (vec3Text (text x) (text y) (text z))) where
  looksNoFurther := hread.bind fun _ ↦ hread.bind fun _ ↦ hread.bind fun _ ↦ LooksNoFurther.pure _
  recorded := htext.bind fun _ hx ↦ htext.bind fun _ hy ↦ htext.bind fun _ hz ↦
    Yields.pure (.inr (unmarked_of_forall (no_bracket_vec3Text hx hy hz)))

end Primitives

theorem looksNoFurther_readShortString : LooksNoFurther readShortString :=
  looksNoFurther_u16le.bind fun len ↦ looksNoFurther_u8.many len

theorem looksNoFurther_readLString : LooksNoFurther readLString := by
  refine looksNoFurther_i32le.bind fun count ↦ ?_
  split
  · exact LooksNoFurther.throw _
  · exact looksNoFurther_u8.many _

/-- A table of readers, searched from the front. -/
def ReadsTexts (typeName : Text) (table : Option (Reader Text)) : Prop :=
  ∀ read ∈ table, ReadsText typeName read

namespace ReadsTexts

variable {typeName : Text}

theorem none : ReadsTexts typeName none := fun _ h ↦ absurd h (Option.not_mem_none _)

theorem ite {c : Prop} [Decidable c] {read : Reader Text} {table : Option (Reader Text)}
    (hread : c → ReadsText typeName read) (htable : ¬c → ReadsTexts typeName table) :
    ReadsTexts typeName (if c then some read else table) := by
  split
  · rintro _ ⟨⟩
    exact hread ‹_›
  · exact htable ‹_›

end ReadsTexts

/-- The types with a reader of their own; a byte may be missing. -/
theorem readsTexts_readText {typeName : Text} (path : Text)
    (hname : typeName ∉ [txt "u8", txt "lu8", txt "byte"]) :
    ReadsTexts typeName (readText typeName path) := by
  unfold readText
  dsimp only
  refine .ite (fun _ ↦ ⟨LooksNoFurther.pure _, Yields.pure (.inr (by decide))⟩) fun _ ↦ ?_
  refine .ite (fun h ↦ readsText_carried looksNoFurther_string (h ▸ by decide)) fun _ ↦ ?_
  refine .ite (fun h ↦ readsText_carried looksNoFurther_readShortString (h ▸ by decide)) fun _ ↦ ?_
  refine .ite (fun h ↦ readsText_carried looksNoFurther_readLString (h ▸ by decide)) fun _ ↦ ?_
  refine .ite (fun _ ↦ readsText_map looksNoFurther_boolean unmarked_bool) fun _ ↦ ?_
  refine .ite (fun h ↦ absurd h hname) fun _ ↦ ?_
  refine .ite (fun _ ↦ readsText_toSigned 8 (looksNoFurther_u8.map _)) fun _ ↦ ?_
  refine .ite (fun _ ↦ readsText_unsigned looksNoFurther_u16be) fun _ ↦ ?_
  refine .ite (fun _ ↦ readsText_unsigned looksNoFurther_u16le) fun _ ↦ ?_
  refine .ite (fun _ ↦ readsText_toSigned 16 looksNoFurther_u16be) fun _ ↦ ?_
  refine .ite (fun _ ↦ readsText_toSigned 16 looksNoFurther_u16le) fun _ ↦ ?_
  refine .ite (fun _ ↦ readsText_unsigned looksNoFurther_u32be) fun _ ↦ ?_
  refine .ite (fun _ ↦ readsText_unsigned looksNoFurther_u32le) fun _ ↦ ?_
  refine .ite (fun _ ↦ readsText_signed looksNoFurther_i32be) fun _ ↦ ?_
  refine .ite (fun _ ↦ readsText_signed looksNoFurther_i32le) fun _ ↦ ?_
  refine .ite (fun _ ↦ readsText_unsigned looksNoFurther_u64be) fun _ ↦ ?_
  refine .ite (fun _ ↦ readsText_unsigned looksNoFurther_u64le) fun _ ↦ ?_
  refine .ite (fun _ ↦ readsText_signed looksNoFurther_i64be) fun _ ↦ ?_
  refine .ite (fun _ ↦ readsText_signed looksNoFurther_i64le) fun _ ↦ ?_
  refine .ite (fun _ ↦ readsText_unsigned looksNoFurther_varuint64) fun _ ↦ ?_
  split
  · split
    · rintro _ ⟨⟩
      exact readsText_unsigned looksNoFurther_varuint64
    · rintro _ ⟨⟩
      exact readsText_unsigned looksNoFurther_varuint32
  · refine .ite (fun _ ↦ readsText_signed looksNoFurther_zigzag32) fun _ ↦ ?_
    refine .ite (fun _ ↦ readsText_signed looksNoFurther_zigzag64) fun _ ↦ ?_
    exact .ite (fun _ ↦ readsText_unsigned looksNoFurther_varuint128) fun _ ↦ .none

/-! ## Trees of tags -/

theorem looksNoFurther_readProtoDefNbt (encoding : BedrockNbtEncoding) :
    LooksNoFurther (readProtoDefNbt encoding) := by
  refine LooksNoFurther.peek ⟨_, rfl⟩ fun b ↦ ?_
  rw [if_neg (by simp)]
  refine LooksNoFurther.bind ?_ fun document ↦ LooksNoFurther.lift _
  split
  · refine BinaryStream.selfContained_readU8.looksNoFurther.bind fun _ ↦ LooksNoFurther.bind ?_ fun name ↦ ?_
    · split
      · exact BinaryStream.selfContained_readVarUInt.looksNoFurther.bind fun len ↦ LooksNoFurther.take len _
      · exact LooksNoFurther.pure _
    · exact LooksNoFurther.pure _
  · exact (BedrockNbt.selfContained_read encoding {}).looksNoFurther

/-- The number of turns is no more than a bound. -/
theorem follows_readNbtLoop {both : Bool} {suffix : List UInt8} {turns turns' : ℕ}
    (h : turns ≤ turns') : Follows both suffix Eq (readNbtLoop turns) (readNbtLoop turns') := by
  induction turns generalizing turns' with
  | zero => exact Follows.throw _
  | succ turns ih =>
      obtain ⟨turns', rfl⟩ := Nat.exists_eq_add_of_le' (Nat.lt_of_lt_of_le (Nat.succ_pos turns) h)
      rw [readNbtLoop, readNbtLoop]
      refine Follows.peek ⟨_, rfl⟩ fun b ↦ ?_
      have hsome : some b ≠ none := Option.some_ne_none b
      rw [if_neg hsome, if_neg hsome]
      by_cases hend : some b = some 0
      · rw [if_pos hend, if_pos hend]
        exact (looksNoFurther_u8.bind fun _ ↦ LooksNoFurther.pure _) suffix
      · rw [if_neg hend, if_neg hend]
        refine (looksNoFurther_readProtoDefNbt _ suffix).bind ?_
        rintro value _ rfl
        refine (ih (Nat.le_of_succ_le_succ h)).bind ?_
        rintro values _ rfl
        exact Follows.pure rfl

/-! ## The remaining primitive types -/

/-- The types that take all that is left. -/
def restTypes : List Text := [txt "restBuffer", txt "MapInfo"]

/-- A table of readers of a text and a value, searched from the front. -/
def ReadsOthers (typeName : Text) (table : Option (Reader (Text × Option ProtoDefValue))) : Prop :=
  ∀ read ∈ table, (typeName ∉ restTypes → LooksNoFurther read) ∧
    Yields read fun value ↦ Recorded typeName value.1

namespace ReadsOthers

variable {typeName : Text}

theorem none : ReadsOthers typeName none := fun _ h ↦ absurd h (Option.not_mem_none _)

theorem ite {c : Prop} [Decidable c] {read : Reader (Text × Option ProtoDefValue)}
    {table : Option (Reader (Text × Option ProtoDefValue))}
    (hread : c → (typeName ∉ restTypes → LooksNoFurther read) ∧
      Yields read fun value ↦ Recorded typeName value.1)
    (htable : ¬c → ReadsOthers typeName table) :
    ReadsOthers typeName (if c then some read else table) := by
  split
  · rintro _ ⟨⟩
    exact hread ‹_›
  · exact htable ‹_›

/-- A text without a value. -/
theorem text {c : Prop} [Decidable c] {read : Reader Text}
    {table : Option (Reader (Text × Option ProtoDefValue))}
    (hread : ReadsText typeName read) (htable : ¬c → ReadsOthers typeName table) :
    ReadsOthers typeName
      (if c then some ((fun value ↦ (value, Option.none)) <$> read) else table) :=
  ite (fun _ ↦ ⟨fun _ ↦ hread.looksNoFurther.map _, Yields.map hread.recorded⟩) htable

/-- A value of a type that carries a text. -/
theorem carried {c : Prop} [Decidable c] {read : Reader (Text × Option ProtoDefValue)}
    {table : Option (Reader (Text × Option ProtoDefValue))} (hread : LooksNoFurther read)
    (htype : c → CarriesText typeName) (htable : ¬c → ReadsOthers typeName table) :
    ReadsOthers typeName (if c then some read else table) :=
  ite (fun h ↦ ⟨fun _ ↦ hread, (Yields.trivial read).mono fun _ _ ↦ .inl (htype h)⟩) htable

end ReadsOthers

theorem readsOthers_readOther (typeName : Text) : ReadsOthers typeName (readOther typeName) := by
  have hfloat {read : Reader ℕ} (hread : LooksNoFurther read) : ReadsText typeName
      ((fun bits ↦ fixedText (widen (UInt32.ofNat bits))) <$> read) :=
    readsText_map hread fun _ ↦ unmarked_of_forall (no_bracket_fixedText _)
  have hdouble {read : Reader ℕ} (hread : LooksNoFurther read) :
      ReadsText typeName ((fun bits ↦ fixedText (UInt64.ofNat bits)) <$> read) :=
    readsText_map hread fun _ ↦ unmarked_of_forall (no_bracket_fixedText _)
  unfold readOther
  dsimp only
  refine .text ?_ fun _ ↦ ?_
  · exact readsText_map (looksNoFurther_u8.many 16) fun bytes ↦
      unmarked_of_forall (no_bracket_uuidText bytes)
  refine .text ?_ fun _ ↦ ?_
  · exact readsText_map (looksNoFurther_u8.many 4) fun bytes ↦
      unmarked_of_forall (no_bracket_ipAddressText bytes)
  refine .ite (fun h ↦ ⟨fun hrest ↦ absurd h hrest, ?_⟩) fun _ ↦ ?_
  · refine Yields.bind_any fun count ↦ Yields.bind_any fun content ↦ Yields.pure (.inr ?_)
    exact unmarked_bufferText (no_bracket_decimal count)
  refine .text ?_ fun _ ↦ ?_
  · exact readsText_map looksNoFurther_u8 fun _ ↦ unmarked_of_forall (no_bracket_fixedText _)
  refine .carried ?_ (fun h ↦ h ▸ by decide) fun _ ↦ ?_
  · intro both suffix
    refine Follows.remaining.bind ?_
    rintro n _ rfl
    refine (follows_readNbtLoop (by omega)).bind ?_
    rintro values _ rfl
    exact Follows.pure rfl
  refine .text (hfloat looksNoFurther_u32be) fun _ ↦ ?_
  refine .text (hfloat looksNoFurther_u32le) fun _ ↦ ?_
  refine .text (hdouble looksNoFurther_u64be) fun _ ↦ ?_
  refine .text (hdouble looksNoFurther_u64le) fun _ ↦ ?_
  refine .text ?_ fun _ ↦ ?_
  · exact readsText_vec3 looksNoFurther_zigzag32
      ((Yields.trivial _).mono fun z _ ↦ no_bracket_decimalInt z)
  refine .text ?_ fun _ ↦ ?_
  · have htext : Yields ((fun bits ↦ fixedText (widen (UInt32.ofNat bits))) <$> u32le)
        fun text ↦ ∀ c ∈ text, c ≠ 0x3c :=
      Yields.map ((Yields.trivial u32le).mono fun bits _ ↦ no_bracket_fixedText _)
    exact readsText_vec3 (looksNoFurther_u32le.map _) htext
  refine .carried ((looksNoFurther_readProtoDefNbt _).map _) (fun h ↦ ?_) fun _ ↦ ?_
  · rcases List.mem_pair.mp h with rfl | rfl
    · decide
    · decide
  exact .carried ((looksNoFurther_readProtoDefNbt _).map _) (fun h ↦ h ▸ by decide) fun _ ↦ .none

/-! ## Counts, flags and bits -/

theorem looksNoFurther_readCount {type : Text} {allowRemaining : Bool} (owner : String)
    (h : ¬(allowRemaining = true ∧ type = txt "remaining")) :
    LooksNoFurther (readCount type allowRemaining owner) := by
  unfold readCount
  dsimp only
  refine .ite (fun _ ↦ (looksNoFurther_u8.map _).map _) fun _ ↦ ?_
  refine .ite (fun _ ↦ (looksNoFurther_u8.map _).map _) fun _ ↦ ?_
  refine .ite (fun _ ↦ looksNoFurther_u16be.map _) fun _ ↦ ?_
  refine .ite (fun _ ↦ looksNoFurther_u16be.map _) fun _ ↦ ?_
  refine .ite (fun _ ↦ looksNoFurther_u16le.map _) fun _ ↦ ?_
  refine .ite (fun _ ↦ looksNoFurther_u16le.map _) fun _ ↦ ?_
  refine .ite (fun _ ↦ looksNoFurther_u32be.map _) fun _ ↦ ?_
  refine .ite (fun _ ↦ looksNoFurther_i32be) fun _ ↦ ?_
  refine .ite (fun _ ↦ looksNoFurther_u32le.map _) fun _ ↦ ?_
  refine .ite (fun _ ↦ looksNoFurther_i32le) fun _ ↦ ?_
  refine .ite (fun _ ↦ looksNoFurther_varuint32.map _) fun _ ↦ ?_
  refine .ite (fun _ ↦ looksNoFurther_zigzag32) fun _ ↦ ?_
  refine .ite (fun _ ↦ looksNoFurther_varuint64.bind fun _ ↦ LooksNoFurther.lift _) fun _ ↦ ?_
  refine .ite (fun _ ↦ looksNoFurther_zigzag64) fun _ ↦ ?_
  exact .ite (fun hremaining ↦ absurd hremaining h) fun _ ↦ LooksNoFurther.throw _

theorem looksNoFurther_nonnegative (message : String) (count : ℤ) :
    LooksNoFurther (nonnegative message count) :=
  .ite (fun _ ↦ LooksNoFurther.throw _) fun _ ↦ LooksNoFurther.pure _

theorem looksNoFurther_pstringLength (json : Text) : LooksNoFurther (pstringLength json) :=
  (looksNoFurther_readCount _ (by simp)).bind fun _ ↦ looksNoFurther_nonnegative _ _

theorem looksNoFurther_encapsulatedLength (json : Text) : LooksNoFurther (encapsulatedLength json) :=
  (looksNoFurther_readCount _ (by simp)).bind fun _ ↦ looksNoFurther_nonnegative _ _

/-- A reader of a mask, the text of which is a number. -/
structure ReadsRaw (read : Reader Bitflags.RawFlags) : Prop where
  looksNoFurther : LooksNoFurther read
  unmarked : Yields read fun raw ↦ Unmarked raw.text

namespace ReadsRaw

theorem ite {c : Prop} [Decidable c] {r s : Reader Bitflags.RawFlags} (hr : ReadsRaw r)
    (hs : ReadsRaw s) : ReadsRaw (if c then r else s) := by
  split
  · exact hr
  · exact hs

theorem unsigned {read : Reader ℕ} (h : LooksNoFurther read) :
    ReadsRaw (Bitflags.unsignedRaw <$> read) :=
  ⟨h.map _, Yields.map ((Yields.trivial read).mono fun n _ ↦ unmarked_decimal n)⟩

theorem signed {w : ℕ} {read : Reader ℤ} (h : LooksNoFurther read) :
    ReadsRaw (Bitflags.signedRaw w <$> read) :=
  ⟨h.map _, Yields.map ((Yields.trivial read).mono fun z _ ↦ unmarked_decimalInt z)⟩

end ReadsRaw

theorem readsRaw_readRaw (baseType : Text) : ReadsRaw (Bitflags.readRaw baseType) := by
  unfold Bitflags.readRaw
  dsimp only
  refine .ite ?_ ?_
  · exact ⟨looksNoFurther_u8.map _,
      Yields.map ((Yields.trivial u8).mono fun b _ ↦ unmarked_decimal b.toNat)⟩
  refine .ite (.signed (looksNoFurther_u8.map _)) ?_
  refine .ite (.unsigned looksNoFurther_u16be) ?_
  refine .ite (.unsigned looksNoFurther_u16le) ?_
  refine .ite (.signed (looksNoFurther_u16be.map _)) ?_
  refine .ite (.signed (looksNoFurther_u16le.map _)) ?_
  refine .ite (.unsigned looksNoFurther_u32be) ?_
  refine .ite (.unsigned looksNoFurther_u32le) ?_
  refine .ite (.signed looksNoFurther_i32be) ?_
  refine .ite (.signed looksNoFurther_i32le) ?_
  refine .ite (.unsigned looksNoFurther_u64be) ?_
  refine .ite (.unsigned looksNoFurther_u64le) ?_
  refine .ite (.signed looksNoFurther_i64be) ?_
  refine .ite (.signed looksNoFurther_i64le) ?_
  refine .ite (.unsigned looksNoFurther_varuint32) ?_
  refine .ite (.unsigned looksNoFurther_varuint64) ?_
  refine .ite (.signed looksNoFurther_zigzag32) ?_
  refine .ite (.signed looksNoFurther_zigzag64) ?_
  refine .ite ?_ ⟨LooksNoFurther.throw _, Yields.throw _⟩
  exact ⟨looksNoFurther_varuint128.map _,
    Yields.map ((Yields.trivial varuint128).mono fun n _ ↦ unmarked_decimal n)⟩

theorem looksNoFurther_readBits (turns currentSize value : ℕ) (r : Bitfield.BitReader) :
    LooksNoFurther (Bitfield.readBits turns currentSize value r) := by
  induction turns generalizing currentSize value r with
  | zero => exact LooksNoFurther.pure _
  | succ turns ih =>
      refine .ite (fun _ ↦ LooksNoFurther.pure _) fun _ ↦ LooksNoFurther.bind ?_ fun _ ↦ ih _ _ _
      exact .ite (fun _ ↦ looksNoFurther_u8.bind fun _ ↦ LooksNoFurther.pure _)
        fun _ ↦ LooksNoFurther.pure _

end ProtoDefDecoder

end BedrockProtocol
