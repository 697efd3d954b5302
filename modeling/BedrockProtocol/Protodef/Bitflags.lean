import BedrockProtocol.Protodef.ProtoDefTypes
import BedrockProtocol.Protodef.SchemaText

/-!
# Bit flags

`decodeBitflags` and `encodeBitflags`: an integer of some base type whose bits
have names.  The decoder yields the integer as `_value` and a boolean for each
name; the encoder starts from `_value` and ors in the masks of the names that
are true.  Masks have 128 bits on both sides.
-/

namespace BedrockProtocol

namespace Bitflags

open ProtoDefValue ProtoDefTypes SchemaText

/-! ## The decoder -/

/-- The integer as a mask, as the value of `_value` and as text. -/
structure RawFlags where
  value : BitVec 128
  rawValue : ProtoDefValue
  text : Text

def unsignedRaw (n : ℕ) : RawFlags := ⟨BitVec.ofNat 128 n, .uint n, decimal n⟩

/-- A negative integer has the mask of its own width. -/
def signedRaw (w : ℕ) (z : ℤ) : RawFlags := ⟨BitVec.ofNat 128 (toUnsigned w z), .int z, decimalInt z⟩

def wideRaw (n : ℕ) : RawFlags := ⟨BitVec.ofNat 128 n, numberValue n, decimal n⟩

def readRaw (baseType : Text) : Reader RawFlags :=
  let i8 : Reader ℤ := (fun b ↦ toSigned 8 b.toNat) <$> ProtoDefReader.u8
  if baseType ∈ [txt "u8", txt "lu8"] then
    (fun b ↦ unsignedRaw b.toNat) <$> ProtoDefReader.u8
  else if baseType ∈ [txt "i8", txt "li8"] then signedRaw 8 <$> i8
  else if baseType = txt "u16" then unsignedRaw <$> ProtoDefReader.u16be
  else if baseType = txt "lu16" then unsignedRaw <$> ProtoDefReader.u16le
  else if baseType = txt "i16" then signedRaw 16 <$> (toSigned 16 <$> ProtoDefReader.u16be)
  else if baseType = txt "li16" then signedRaw 16 <$> (toSigned 16 <$> ProtoDefReader.u16le)
  else if baseType = txt "u32" then unsignedRaw <$> ProtoDefReader.u32be
  else if baseType = txt "lu32" then unsignedRaw <$> ProtoDefReader.u32le
  else if baseType = txt "i32" then signedRaw 32 <$> ProtoDefReader.i32be
  else if baseType = txt "li32" then signedRaw 32 <$> ProtoDefReader.i32le
  else if baseType = txt "u64" then unsignedRaw <$> ProtoDefReader.u64be
  else if baseType = txt "lu64" then unsignedRaw <$> ProtoDefReader.u64le
  else if baseType = txt "i64" then signedRaw 64 <$> ProtoDefReader.i64be
  else if baseType = txt "li64" then signedRaw 64 <$> ProtoDefReader.i64le
  else if baseType ∈ [txt "varint", txt "varuint", txt "varuint32"] then
    unsignedRaw <$> ProtoDefReader.varuint32
  else if baseType ∈ [txt "varint64", txt "varuint64", txt "varlong"] then
    unsignedRaw <$> ProtoDefReader.varuint64
  else if baseType = txt "zigzag32" then signedRaw 32 <$> ProtoDefReader.zigzag32
  else if baseType = txt "zigzag64" then signedRaw 64 <$> ProtoDefReader.zigzag64
  else if baseType ∈ [txt "varint128", txt "varuint128"] then
    wideRaw <$> ProtoDefReader.varuint128
  else throw ("bitflags unsupported base type: " ++ shown baseType)

/-- All bits of the mask are set. -/
def enabled (value bit : BitVec 128) : Bool := value &&& bit = bit

/-- The field and the context entry of one flag. -/
def recordFlag (collectFields : Bool) (path : Text) (raw : RawFlags) (start size : ℕ)
    (decoded : Decoded) (flag : Text × BitVec 128) : Decoded :=
  decoded.record collectFields
    { path := childPath path flag.1, type := txt "bool",
      value := if enabled raw.value flag.2 then txt "true" else txt "false",
      offset := start, size := size }

def decodeBitflags (collectFields : Bool) (bitflagsJson path : Text) (decoded : Decoded) :
    Reader Decoded := do
  let baseType := (readJsonStringField bitflagsJson (txt "type")).getD (txt "lu32")
  let start ← Reader.offset
  let raw ← readRaw baseType
  let offset ← Reader.offset
  let field : ProtoDefField :=
    { path := path, type := txt "bitflags", value := raw.text, offset := start,
      size := offset - start, structuredValue := some (.object [(txt "_value", raw.rawValue)]) }
  pure ((readBitflagValues bitflagsJson).foldl
    (recordFlag collectFields path raw start (offset - start))
    (decoded.record collectFields field))

/-- The object that the appended fields stand for: `_value` and then the booleans, each assigned
under the name of its flag. -/
def decodedObject (bitflagsJson : Text) : List ProtoDefField → ProtoDefValue
  | [] => .object []
  | field :: flagFields =>
      .object (((readBitflagValues bitflagsJson).zip flagFields).foldl
        (fun fields flag ↦ assign flag.1.1 (.bool (flag.2.value = txt "true")) fields)
        (field.structuredValue.getD .null).objectValue)

/-! ## The encoder -/

section Encoding

variable (undefinedCast : UInt64 → UInt64)
  (other : Text → ProtoDefValue → Except String (List UInt8))

def asUInt128 : ProtoDefValue → Except String (BitVec 128)
  | .string text => .ok (parseUint128 text)
  | value => BitVec.ofNat 128 <$> asUInt undefinedCast value

/-- The mask with that of a flag whose name is a true field. -/
def orFlag (fields : List (Text × ProtoDefValue)) (mask : BitVec 128) (flag : Text × BitVec 128) :
    Except String (BitVec 128) :=
  match find flag.1 fields with
  | none => .ok mask
  | some value => (fun set ↦ if set then mask ||| flag.2 else mask) <$> asBool value

/-- The mask with that of a named flag. -/
def orNamed (flags : List (Text × BitVec 128)) (mask : BitVec 128) (item : ProtoDefValue) :
    Except String (BitVec 128) := do
  let name ← asString item
  match flags.lookup name with
  | none => .error ("unknown bitflag: " ++ shown name)
  | some bit => .ok (mask ||| bit)

def bitflagsMask (bitflagsJson : Text) (value : ProtoDefValue) : Except String (BitVec 128) :=
  match value with
  | .array items => items.foldlM (orNamed (readBitflagValues bitflagsJson)) 0
  | .object fields => do
      let mask ← match find (txt "_value") fields with
        | none => .ok 0
        | some raw => asUInt128 undefinedCast raw
      (readBitflagValues bitflagsJson).foldlM (orFlag fields) mask
  | .null => .error "bitflags encode expects number, array, or object"
  | .bytes _ => .error "bitflags encode expects number, array, or object"
  | value => asUInt128 undefinedCast value

def encodeMask (baseType : Text) (mask : BitVec 128) : Except String (List UInt8) :=
  if baseType = txt "varint128" then .ok (leb128 18 mask.toNat)
  else if 2 ^ 64 - 1 < mask.toNat then .error ("bitflags mask does not fit " ++ shown baseType)
  else encodeTypeName undefinedCast other baseType (.uint mask.toNat)

def encodeBitflags (bitflagsJson : Text) (value : ProtoDefValue) : Except String (List UInt8) := do
  let baseType := (readJsonStringField bitflagsJson (txt "type")).getD (txt "varint")
  let mask ← bitflagsMask undefinedCast bitflagsJson value
  encodeMask undefinedCast other baseType mask

end Encoding

/-! ## The table of flags -/

theorem setFlag_names (name : Text) (bit : BitVec 128) (out : List (Text × BitVec 128)) :
    (setFlag name bit out).map Prod.fst =
      if name ∈ out.map Prod.fst then out.map Prod.fst else out.map Prod.fst ++ [name] := by
  induction out with
  | nil => rfl
  | cons flag out ih =>
      obtain ⟨n, b⟩ := flag
      rw [setFlag]
      by_cases hname : n = name
      · rw [if_pos hname, if_pos (by simp [hname])]
        rfl
      · rw [if_neg hname, List.map_cons, ih, List.map_cons]
        by_cases hmem : name ∈ out.map Prod.fst
        · rw [if_pos hmem, if_pos (List.mem_cons_of_mem _ hmem)]
        · rw [if_neg hmem, if_neg, List.cons_append]
          rw [List.mem_cons, not_or]
          exact ⟨Ne.symm hname, hmem⟩

theorem setFlag_nodup {out : List (Text × BitVec 128)} (hout : (out.map Prod.fst).Nodup)
    (name : Text) (bit : BitVec 128) : ((setFlag name bit out).map Prod.fst).Nodup := by
  rw [setFlag_names]
  split
  · exact hout
  · rename_i hmem
    refine List.nodup_append.mpr ⟨hout, by simp, ?_⟩
    rintro a ha b hb rfl
    exact hmem (List.mem_singleton.mp hb ▸ ha)

/-- No two flags have one name. -/
theorem readBitflagValues_nodup (bitflagsJson : Text) :
    ((readBitflagValues bitflagsJson).map Prod.fst).Nodup := by
  have hlist (flags : Text) (turns pos : ℕ) (bit : BitVec 128) :
      ∀ out : List (Text × BitVec 128), (out.map Prod.fst).Nodup →
        ((listFlagsFrom flags turns pos bit out).map Prod.fst).Nodup := by
    induction turns generalizing pos bit with
    | zero => exact fun out hout ↦ hout
    | succ turns ih =>
        intro out hout
        rw [listFlagsFrom]
        split
        · exact hout
        · split
          · exact hout
          · exact ih _ _ _ (setFlag_nodup hout _ _)
  have hobject (flags : Text) (turns pos : ℕ) :
      ∀ out : List (Text × BitVec 128), (out.map Prod.fst).Nodup →
        ((objectFlagsFrom flags turns pos out).map Prod.fst).Nodup := by
    induction turns generalizing pos with
    | zero => exact fun out hout ↦ hout
    | succ turns ih =>
        intro out hout
        rw [objectFlagsFrom]
        split
        · exact hout
        · split
          · exact hout
          · split
            · exact hout
            · exact ih _ _ (setFlag_nodup hout _ _)
  rw [readBitflagValues]
  split
  · exact List.nodup_nil
  · dsimp only
    split
    · exact hlist _ _ _ _ _ List.nodup_nil
    · exact hobject _ _ _ _ List.nodup_nil
    · exact List.nodup_nil

/-! ## Masks -/

/-- The masks of the flags that are set. -/
def flagMask (value : BitVec 128) : List (Text × BitVec 128) → BitVec 128
  | [] => 0
  | flag :: flags =>
      if enabled value flag.2 then flag.2 ||| flagMask value flags else flagMask value flags

theorem or_of_enabled {value bit : BitVec 128} (h : enabled value bit = true) :
    value ||| bit = value := by
  have hand : value &&& bit = bit := of_decide_eq_true h
  apply BitVec.eq_of_getLsbD_eq
  intro k hk
  have hbit := congrArg (BitVec.getLsbD · k) hand
  rw [BitVec.getLsbD_and] at hbit
  rw [BitVec.getLsbD_or]
  cases hv : value.getLsbD k <;> simp_all

/-- A set flag adds no bit. -/
theorem or_flagMask (value : BitVec 128) (flags : List (Text × BitVec 128)) :
    value ||| flagMask value flags = value := by
  induction flags with
  | nil => exact BitVec.or_zero
  | cons flag flags ih =>
      rw [flagMask]
      split
      · rename_i h
        rw [← BitVec.or_assoc, or_of_enabled h, ih]
      · exact ih

/-! ## The decoded object -/

/-- The fields of the decoded object. -/
def objectFields (raw : RawFlags) (flags : List (Text × BitVec 128)) : List (Text × ProtoDefValue) :=
  flags.foldl (fun fields flag ↦ assign flag.1 (.bool (enabled raw.value flag.2)) fields)
    [(txt "_value", raw.rawValue)]

/-- The fields that the decoder appends for the flags. -/
def flagField (path : Text) (raw : RawFlags) (start size : ℕ) (flag : Text × BitVec 128) :
    ProtoDefField :=
  { path := childPath path flag.1, type := txt "bool",
    value := if enabled raw.value flag.2 then txt "true" else txt "false",
    offset := start, size := size }

theorem out_foldl_recordFlag (path : Text) (raw : RawFlags) (start size : ℕ)
    (flags : List (Text × BitVec 128)) (decoded : Decoded) :
    (flags.foldl (recordFlag true path raw start size) decoded).out =
      decoded.out ++ flags.map (flagField path raw start size) := by
  induction flags generalizing decoded with
  | nil => exact (List.append_nil _).symm
  | cons flag flags ih =>
      rw [List.foldl_cons, ih]
      exact List.append_assoc decoded.out [flagField path raw start size flag] _

/-- The appended fields stand for `_value` and the booleans. -/
theorem decodedObject_fields (bitflagsJson path : Text) (raw : RawFlags) (start size : ℕ)
    (field : ProtoDefField)
    (hfield : field.structuredValue = some (.object [(txt "_value", raw.rawValue)])) :
    decodedObject bitflagsJson
        (field :: (readBitflagValues bitflagsJson).map (flagField path raw start size)) =
      .object (objectFields raw (readBitflagValues bitflagsJson)) := by
  have htext (flag : Text × BitVec 128) :
      decide ((flagField path raw start size flag).value = txt "true") =
        enabled raw.value flag.2 := by
    change decide ((if enabled raw.value flag.2 = true then txt "true" else txt "false") =
      txt "true") = _
    cases enabled raw.value flag.2 <;> decide
  have hfold : ∀ (flags : List (Text × BitVec 128)) (fields : List (Text × ProtoDefValue)),
      (flags.zip (flags.map (flagField path raw start size))).foldl
        (fun fields flag ↦ assign flag.1.1 (.bool (flag.2.value = txt "true")) fields) fields =
      flags.foldl (fun fields flag ↦ assign flag.1 (.bool (enabled raw.value flag.2)) fields)
        fields := by
    intro flags
    induction flags with
    | nil => exact fun _ ↦ rfl
    | cons flag flags ih =>
        intro fields
        rw [List.map_cons, List.zip_cons_cons, List.foldl_cons, List.foldl_cons, ih, htext]
  rw [decodedObject, hfield, hfold]
  rfl

/-- What a run of the decoder has read and appended. -/
theorem decodeBitflags_eq_ok {bitflagsJson path : Text} {decoded decoded' : Decoded}
    {c c' : Cursor} (hrun : decodeBitflags true bitflagsJson path decoded c = .ok (decoded', c')) :
    ∃ raw new,
      readRaw ((readJsonStringField bitflagsJson (txt "type")).getD (txt "lu32")) c = .ok (raw, c') ∧
        decoded'.out = decoded.out ++ new ∧
        decodedObject bitflagsJson new =
          .object (objectFields raw (readBitflagValues bitflagsJson)) := by
  rw [decodeBitflags, Reader.offset_run] at hrun
  obtain ⟨raw, c₁, hraw, hrun⟩ := Reader.run_bind_eq_ok hrun
  rw [Reader.offset_run] at hrun
  obtain ⟨rfl, rfl⟩ := Prod.mk.inj (Except.ok.inj hrun)
  obtain ⟨field, hfield⟩ : ∃ field : ProtoDefField, field =
      { path := path, type := txt "bitflags", value := raw.text, offset := c.offset,
        size := c₁.offset - c.offset,
        structuredValue := some (.object [(txt "_value", raw.rawValue)]) } := ⟨_, rfl⟩
  refine ⟨raw, field :: (readBitflagValues bitflagsJson).map
    (flagField path raw c.offset (c₁.offset - c.offset)), hraw, ?_, ?_⟩
  · rw [out_foldl_recordFlag, ← hfield]
    exact List.append_assoc decoded.out [field] _
  · exact decodedObject_fields bitflagsJson path raw _ _ field (by rw [hfield])

/-- A flag's name is the field of its boolean; the other names stay as they were. -/
theorem find_foldl_assign {flags : List (Text × BitVec 128)} (hflags : (flags.map Prod.fst).Nodup)
    (value : BitVec 128) (fields : List (Text × ProtoDefValue)) :
    (∀ flag ∈ flags, find flag.1
        (flags.foldl (fun fields flag ↦ assign flag.1 (.bool (enabled value flag.2)) fields) fields) =
          some (.bool (enabled value flag.2))) ∧
      ∀ name ∉ flags.map Prod.fst, find name
        (flags.foldl (fun fields flag ↦ assign flag.1 (.bool (enabled value flag.2)) fields) fields) =
          find name fields := by
  induction flags generalizing fields with
  | nil =>
      refine ⟨?_, fun name _ ↦ rfl⟩
      intro flag hflag
      cases hflag
  | cons first flags ih =>
      rw [List.map_cons, List.nodup_cons] at hflags
      obtain ⟨hset, hother⟩ :=
        ih hflags.2 (assign first.1 (.bool (enabled value first.2)) fields)
      constructor
      · intro flag hflag
        rcases List.mem_cons.mp hflag with rfl | hmem
        · rw [List.foldl_cons, hother flag.1 hflags.1, find_assign, if_pos rfl]
        · exact hset flag hmem
      · intro name hname
        rw [List.map_cons, List.mem_cons, not_or] at hname
        rw [List.foldl_cons, hother name hname.2, find_assign, if_neg (Ne.symm hname.1)]

/-- The encoder adds the masks of the flags that are set. -/
theorem foldlM_orFlag {flags : List (Text × BitVec 128)} {fields : List (Text × ProtoDefValue)}
    {value : BitVec 128}
    (hfields : ∀ flag ∈ flags, find flag.1 fields = some (.bool (enabled value flag.2)))
    (mask : BitVec 128) :
    flags.foldlM (orFlag fields) mask = .ok (mask ||| flagMask value flags) := by
  induction flags generalizing mask with
  | nil => exact congrArg Except.ok BitVec.or_zero.symm
  | cons flag flags ih =>
      have hflag : orFlag fields mask flag =
          .ok (if enabled value flag.2 then mask ||| flag.2 else mask) := by
        rw [orFlag, hfields flag (by simp)]
        rfl
      rw [List.foldlM_cons, hflag, ok_bind, ih fun f hf ↦ hfields f (by simp [hf]), flagMask]
      split
      · rw [BitVec.or_assoc]
      · rfl

/-! ## Base types -/

/-- The types that the decoder and the encoder know. -/
def sharedTypes : List Text :=
  [txt "u8", txt "lu8", txt "i8", txt "li8", txt "u16", txt "lu16", txt "i16", txt "li16",
    txt "u32", txt "lu32", txt "i32", txt "li32", txt "u64", txt "lu64", txt "i64", txt "li64",
    txt "varint", txt "varuint", txt "varint64", txt "varuint64", txt "varlong", txt "zigzag32",
    txt "zigzag64", txt "varint128"]

section BaseTypes

variable {undefinedCast : UInt64 → UInt64}
  {other : Text → ProtoDefValue → Except String (List UInt8)} {baseType : Text} {w : ℕ}

variable (undefinedCast other) in
/-- The raw values of the type are `rawOf n` for the words `n` of `w` bits.  A mask of up to
`bound` bits is written with its low `w` bits. -/
structure CarriesWords (baseType : Text) (w bound : ℕ) (rawOf : ℕ → RawFlags) : Prop where
  width : 0 < w ∧ w ≤ bound ∧ bound ≤ 128
  yields : Yields (readRaw baseType) fun raw ↦ ∃ n < 2 ^ w, raw = rawOf n
  value : ∀ n < 2 ^ w, (rawOf n).value = BitVec.ofNat 128 n
  mask : ∀ n < 2 ^ w, ∃ mask, asUInt128 undefinedCast (rawOf n).rawValue = .ok mask ∧
    mask.toNat < 2 ^ bound ∧ mask.toNat % 2 ^ w = n
  writes : ∀ mask : BitVec 128, mask.toNat < 2 ^ bound →
    ∃ bytes, encodeMask undefinedCast other baseType mask = .ok bytes ∧
      Reads (readRaw baseType) bytes (rawOf (mask.toNat % 2 ^ w))

theorem toNat_ofNat128 {n : ℕ} (hn : n < 2 ^ 128) : (BitVec.ofNat 128 n).toNat = n := by
  rw [BitVec.toNat_ofNat, Nat.mod_eq_of_lt hn]

/-- A word that the reader yields and the writer writes, as a raw value. -/
theorem carries_of_word {rawOf : ℕ → RawFlags} {read : Reader ℕ} {write : ℕ → List UInt8}
    (hw : 0 < w ∧ w ≤ 64) (hraw : readRaw baseType = rawOf <$> read)
    (hyields : Yields read (· < 2 ^ w)) (hreads : ∀ n < 2 ^ 64, Reads read (write n) (n % 2 ^ w))
    (hencode : ∀ n < 2 ^ 64, encodeTypeName undefinedCast other baseType (.uint n) = .ok (write n))
    (hwide : baseType ≠ txt "varint128")
    (hvalue : ∀ n < 2 ^ w, (rawOf n).value = BitVec.ofNat 128 n)
    (hmask : ∀ n < 2 ^ w, ∃ mask, asUInt128 undefinedCast (rawOf n).rawValue = .ok mask ∧
      mask.toNat < 2 ^ 64 ∧ mask.toNat % 2 ^ w = n) :
    CarriesWords undefinedCast other baseType w 64 rawOf := by
  refine ⟨⟨hw.1, hw.2, by decide⟩, ?_, hvalue, hmask, ?_⟩
  · rw [hraw]
    exact Yields.map (hyields.mono fun n hn ↦ ⟨n, hn, rfl⟩)
  · intro mask hbound
    refine ⟨write mask.toNat, ?_, ?_⟩
    · rw [encodeMask, if_neg hwide, if_neg (by omega)]
      exact hencode _ hbound
    · rw [hraw]
      exact (hreads _ hbound).map

/-- Unsigned words. -/
theorem carries_unsigned {read : Reader ℕ} {write : ℕ → List UInt8} (hw : 0 < w ∧ w ≤ 64)
    (hraw : readRaw baseType = unsignedRaw <$> read) (hyields : Yields read (· < 2 ^ w))
    (hreads : ∀ n < 2 ^ 64, Reads read (write n) (n % 2 ^ w))
    (hencode : ∀ n < 2 ^ 64, encodeTypeName undefinedCast other baseType (.uint n) = .ok (write n))
    (hwide : baseType ≠ txt "varint128") :
    CarriesWords undefinedCast other baseType w 64 unsignedRaw := by
  refine carries_of_word hw hraw hyields hreads hencode hwide (fun _ _ ↦ rfl) ?_
  intro n hn
  have hpow : (2 : ℕ) ^ w ≤ 2 ^ 64 := Nat.pow_le_pow_right (by decide) hw.2
  refine ⟨BitVec.ofNat 128 n, rfl, ?_⟩
  rw [toNat_ofNat128 (by omega)]
  exact ⟨by omega, Nat.mod_eq_of_lt hn⟩

/-- The low bits of a word stay what they are while it is read as a signed number of 64 bits. -/
theorem toUnsigned_toSigned64 (hw : w ≤ 64) {n : ℕ} (hn : n < 2 ^ 64) :
    toUnsigned w (toSigned 64 n) = n % 2 ^ w := by
  rw [← toUnsigned_mod hw, toUnsigned_toSigned hn]

/-- Words in two's complement; their numbers are extended to 64 bits by the encoder. -/
theorem carries_signed {read : Reader ℕ} {write : ℕ → List UInt8} (hw : 0 < w ∧ w ≤ 64)
    (hraw : readRaw baseType = (fun n ↦ signedRaw w (toSigned w n)) <$> read)
    (hyields : Yields read (· < 2 ^ w)) (hreads : ∀ n < 2 ^ w, Reads read (write n) n)
    (hencode : ∀ n < 2 ^ 64, encodeTypeName undefinedCast other baseType (.uint n) =
      .ok (write (toUnsigned w (toSigned 64 n))))
    (hwide : baseType ≠ txt "varint128") :
    CarriesWords undefinedCast other baseType w 64 fun n ↦ signedRaw w (toSigned w n) := by
  refine carries_of_word hw hraw hyields ?_ hencode hwide ?_ ?_
  · intro n hn
    rw [toUnsigned_toSigned64 hw.2 hn]
    exact hreads _ (Nat.mod_lt n (Nat.two_pow_pos w))
  · intro n hn
    rw [signedRaw, toUnsigned_toSigned hn]
  · intro n hn
    have hlt := toUnsigned_lt 64 (toSigned w n)
    refine ⟨BitVec.ofNat 128 (toUnsigned 64 (toSigned w n)), rfl, ?_⟩
    rw [toNat_ofNat128 (by omega), toUnsigned_mod hw.2, toUnsigned_toSigned hn]
    exact ⟨hlt, rfl⟩

/-- A numeral is parsed to its number, cut to 128 bits. -/
theorem parseUint128_decimal (n : ℕ) : parseUint128 (decimal n) = BitVec.ofNat 128 n := by
  have hfold : ∀ (digits : Text) (acc : ℕ), (∀ c ∈ digits, isDigit c = true) →
      digits.foldl (fun value c ↦
        if isDigit c then value * 10 + BitVec.ofNat 128 (c.toNat - 0x30) else value)
        (BitVec.ofNat 128 acc) =
      BitVec.ofNat 128 (digits.foldl (fun n c ↦ 10 * n + (c.toNat - 0x30)) acc) := by
    intro digits
    induction digits with
    | nil => exact fun acc _ ↦ rfl
    | cons c digits ih =>
        intro acc hdigits
        rw [List.foldl_cons, List.foldl_cons, if_pos (hdigits c (by simp)),
          ← ih _ fun d hd ↦ hdigits d (by simp [hd])]
        congr 1
        rw [BitVec.ofNat_add, BitVec.ofNat_mul, BitVec.mul_comm]
        rfl
  have hparse := hfold (decimal n) 0 fun c hc ↦ isDigit_of_mem_decimal hc
  have hvalue := decimalValue_decimal n
  rw [decimalValue] at hvalue
  rw [hvalue] at hparse
  exact hparse

/-- Words of 128 bits are written whole. -/
theorem carries_wide : CarriesWords undefinedCast other (txt "varint128") 128 128 wideRaw := by
  refine ⟨by decide, ?_, fun _ _ ↦ rfl, ?_, ?_⟩
  · exact Yields.map (ProtoDefReader.yields_varuint128.mono fun n hn ↦ ⟨n, hn, rfl⟩)
  · intro n hn
    refine ⟨BitVec.ofNat 128 n, ?_, BitVec.isLt _, ?_⟩
    · rw [wideRaw, numberValue]
      split
      · rfl
      · exact congrArg Except.ok (parseUint128_decimal n)
    · rw [toNat_ofNat128 hn, Nat.mod_eq_of_lt hn]
  · intro mask hbound
    refine ⟨leb128 18 mask.toNat, rfl, ?_⟩
    rw [Nat.mod_eq_of_lt hbound]
    exact (ProtoDefReader.reads_varuint128 hbound).map

/-- The word under a zigzag code. -/
theorem yields_decodeZigZag {w : ℕ} {read : Reader ℕ} (h : Yields read (· < 2 ^ w)) :
    Yields (decodeZigZag w <$> read) (· < 2 ^ w) :=
  Yields.map (h.mono fun _ hn ↦ decodeZigZag_lt hn)

/-- Two functions over one reader. -/
theorem map_twice {α β γ : Type} (g : α → β) (f : β → γ) (read : Reader α) :
    f <$> (g <$> read) = (fun a ↦ f (g a)) <$> read := (comp_map g f read).symm

/-- A reader of a word gives it back from the bytes of the word. -/
theorem reads_mod {read : Reader ℕ} {write : ℕ → List UInt8}
    (h : ∀ n, Reads read (write n) (n % 2 ^ w)) : ∀ n < 2 ^ w, Reads read (write n) n := by
  intro n hn
  have hread := h n
  rwa [Nat.mod_eq_of_lt hn] at hread

open ProtoDefReader in
/-- Every type that both sides know carries words. -/
theorem carries_sharedTypes (htype : baseType ∈ sharedTypes) :
    ∃ w bound rawOf, CarriesWords undefinedCast other baseType w bound rawOf := by
  have hi8 : signedRaw 8 <$> ((fun b ↦ toSigned 8 b.toNat) <$> u8) =
      (fun n ↦ signedRaw 8 (toSigned 8 n)) <$> (UInt8.toNat <$> u8) := by
    rw [map_twice, map_twice]
  have hzigzag32 : signedRaw 32 <$> zigzag32 =
      (fun n ↦ signedRaw 32 (toSigned 32 n)) <$> (decodeZigZag 32 <$> varuint32) := by
    rw [zigzag32, map_twice, map_twice]
  have hzigzag64 : signedRaw 64 <$> zigzag64 =
      (fun n ↦ signedRaw 64 (toSigned 64 n)) <$> (decodeZigZag 64 <$> varuint64) := by
    rw [zigzag64, map_twice, map_twice]
  have hvaruint64 (n : ℕ) (hn : n < 2 ^ 64) : Reads varuint64 (leb128 9 n) (n % 2 ^ 64) := by
    rw [Nat.mod_eq_of_lt hn]
    exact reads_varuint64 hn
  have hread32 (n : ℕ) (hn : n < 2 ^ 32) :
      Reads (decodeZigZag 32 <$> varuint32) (leb128 4 (encodeZigZag 32 n)) n := by
    have hread := (reads_varuint32 (encodeZigZag_lt (by decide) hn)).map (f := decodeZigZag 32)
    rwa [decodeZigZag_encodeZigZag (by decide) hn] at hread
  have hread64 (n : ℕ) (hn : n < 2 ^ 64) :
      Reads (decodeZigZag 64 <$> varuint64) (leb128 9 (encodeZigZag 64 n)) n := by
    have hread := (reads_varuint64 (encodeZigZag_lt (by decide) hn)).map (f := decodeZigZag 64)
    rwa [decodeZigZag_encodeZigZag (by decide) hn] at hread
  simp only [sharedTypes, List.mem_cons, List.not_mem_nil, or_false] at htype
  rcases htype with rfl | rfl | rfl | rfl | rfl | rfl | rfl | rfl | rfl | rfl | rfl | rfl | rfl |
    rfl | rfl | rfl | rfl | rfl | rfl | rfl | rfl | rfl | rfl | rfl
  -- One byte.
  · exact ⟨8, 64, _, carries_unsigned (by decide) (map_twice _ _ _).symm yields_byte
      (fun n _ ↦ reads_byte n) (fun _ _ ↦ rfl) (by decide)⟩
  · exact ⟨8, 64, _, carries_unsigned (by decide) (map_twice _ _ _).symm yields_byte
      (fun n _ ↦ reads_byte n) (fun _ _ ↦ rfl) (by decide)⟩
  · exact ⟨8, 64, _, carries_signed (by decide) hi8 yields_byte (reads_mod reads_byte)
      (fun _ _ ↦ rfl) (by decide)⟩
  · refine ⟨8, 64, _, carries_signed (by decide) hi8 yields_byte (reads_mod reads_byte)
      (fun n hn ↦ ?_) (by decide)⟩
    -- The encoder takes `li8` for an unsigned type.
    rw [toUnsigned_toSigned64 (by decide) hn]
    have hmod : n % 2 ^ 8 % 256 = n % 256 := Nat.mod_mod n 256
    change Except.ok [UInt8.ofNat (n % 256)] = Except.ok [UInt8.ofNat (n % 2 ^ 8 % 256)]
    rw [hmod]
  -- Two bytes.
  · exact ⟨16, 64, _, carries_unsigned (by decide) rfl yields_u16be (fun n _ ↦ reads_u16be n)
      (fun _ _ ↦ rfl) (by decide)⟩
  · exact ⟨16, 64, _, carries_unsigned (by decide) rfl yields_u16le (fun n _ ↦ reads_u16le n)
      (fun _ _ ↦ rfl) (by decide)⟩
  · exact ⟨16, 64, _, carries_signed (by decide) (map_twice _ _ _) yields_u16be
      (reads_mod reads_u16be) (fun _ _ ↦ rfl) (by decide)⟩
  · exact ⟨16, 64, _, carries_signed (by decide) (map_twice _ _ _) yields_u16le
      (reads_mod reads_u16le) (fun _ _ ↦ rfl) (by decide)⟩
  -- Four bytes.
  · exact ⟨32, 64, _, carries_unsigned (by decide) rfl yields_u32be (fun n _ ↦ reads_u32be n)
      (fun _ _ ↦ rfl) (by decide)⟩
  · exact ⟨32, 64, _, carries_unsigned (by decide) rfl yields_u32le (fun n _ ↦ reads_u32le n)
      (fun _ _ ↦ rfl) (by decide)⟩
  · exact ⟨32, 64, _, carries_signed (by decide) (map_twice _ _ _) yields_u32be
      (reads_mod reads_u32be) (fun _ _ ↦ rfl) (by decide)⟩
  · exact ⟨32, 64, _, carries_signed (by decide) (map_twice _ _ _) yields_u32le
      (reads_mod reads_u32le) (fun _ _ ↦ rfl) (by decide)⟩
  -- Eight bytes.
  · exact ⟨64, 64, _, carries_unsigned (by decide) rfl yields_u64be (fun n _ ↦ reads_u64be n)
      (fun _ _ ↦ rfl) (by decide)⟩
  · exact ⟨64, 64, _, carries_unsigned (by decide) rfl yields_u64le (fun n _ ↦ reads_u64le n)
      (fun _ _ ↦ rfl) (by decide)⟩
  · exact ⟨64, 64, _, carries_signed (by decide) (map_twice _ _ _) yields_u64be
      (reads_mod reads_u64be) (fun _ _ ↦ rfl) (by decide)⟩
  · exact ⟨64, 64, _, carries_signed (by decide) (map_twice _ _ _) yields_u64le
      (reads_mod reads_u64le) (fun _ _ ↦ rfl) (by decide)⟩
  -- Varints.
  · exact ⟨32, 64, _, carries_unsigned (by decide) rfl yields_varuint32
      (fun n _ ↦ reads_varuint32 (Nat.mod_lt n (by decide))) (fun _ _ ↦ rfl) (by decide)⟩
  · exact ⟨32, 64, _, carries_unsigned (by decide) rfl yields_varuint32
      (fun n _ ↦ reads_varuint32 (Nat.mod_lt n (by decide))) (fun _ _ ↦ rfl) (by decide)⟩
  · exact ⟨64, 64, _, carries_unsigned (by decide) rfl yields_varuint64 hvaruint64
      (fun _ _ ↦ rfl) (by decide)⟩
  · exact ⟨64, 64, _, carries_unsigned (by decide) rfl yields_varuint64 hvaruint64
      (fun _ _ ↦ rfl) (by decide)⟩
  · exact ⟨64, 64, _, carries_unsigned (by decide) rfl yields_varuint64 hvaruint64
      (fun _ _ ↦ rfl) (by decide)⟩
  -- Zigzag codes.
  · exact ⟨32, 64, _, carries_signed (by decide) hzigzag32 (yields_decodeZigZag yields_varuint32)
      hread32 (fun _ _ ↦ rfl) (by decide)⟩
  · exact ⟨64, 64, _, carries_signed (by decide) hzigzag64 (yields_decodeZigZag yields_varuint64)
      hread64 (fun _ _ ↦ rfl) (by decide)⟩
  · exact ⟨128, 128, _, carries_wide⟩

end BaseTypes

/-! ## Raw values -/

/-- If a flag is called `_value`, its boolean and the masks of the set flags make up the value. -/
def RawKept (value : BitVec 128) (flags : List (Text × BitVec 128)) : Prop :=
  ∀ bit, (txt "_value", bit) ∈ flags →
    (if enabled value bit then 1 else 0) ||| flagMask value flags = value

section RawValues

variable {undefinedCast : UInt64 → UInt64}
  {other : Text → ProtoDefValue → Except String (List UInt8)} {bitflagsJson : Text}
  {raw : RawFlags}

/-- The mask of a decoded object. -/
theorem bitflagsMask_objectFields {start : ProtoDefValue} {mask : BitVec 128}
    (hstart : find (txt "_value") (objectFields raw (readBitflagValues bitflagsJson)) = some start)
    (hmask : asUInt128 undefinedCast start = .ok mask) :
    bitflagsMask undefinedCast bitflagsJson
        (.object (objectFields raw (readBitflagValues bitflagsJson))) =
      .ok (mask ||| flagMask raw.value (readBitflagValues bitflagsJson)) := by
  have hnodup := readBitflagValues_nodup bitflagsJson
  have hflags := (find_foldl_assign hnodup raw.value [(txt "_value", raw.rawValue)]).1
  rw [bitflagsMask, hstart]
  change (asUInt128 undefinedCast start >>= _) = _
  rw [hmask, ok_bind]
  exact foldlM_orFlag hflags mask

variable (raw) in
/-- What the encoder starts from. -/
theorem find_value_objectFields :
    (txt "_value" ∉ (readBitflagValues bitflagsJson).map Prod.fst →
      find (txt "_value") (objectFields raw (readBitflagValues bitflagsJson)) =
        some raw.rawValue) ∧
    ∀ bit, (txt "_value", bit) ∈ readBitflagValues bitflagsJson →
      find (txt "_value") (objectFields raw (readBitflagValues bitflagsJson)) =
        some (.bool (enabled raw.value bit)) := by
  have hnodup := readBitflagValues_nodup bitflagsJson
  obtain ⟨hset, hother⟩ := find_foldl_assign hnodup raw.value [(txt "_value", raw.rawValue)]
  exact ⟨fun hname ↦ hother _ hname, fun bit hbit ↦ hset (txt "_value", bit) hbit⟩

section OneType

variable {baseType : Text} {w bound n : ℕ} {rawOf : ℕ → RawFlags}

theorem CarriesWords.toNat_value (htype : CarriesWords undefinedCast other baseType w bound rawOf)
    (hn : n < 2 ^ w) : (rawOf n).value.toNat = n := by
  obtain ⟨hpos, hbound, hwide⟩ := htype.width
  have hpow : (2 : ℕ) ^ w ≤ 2 ^ 128 := Nat.pow_le_pow_right (by decide) (hbound.trans hwide)
  rw [htype.value n hn, toNat_ofNat128 (by omega)]

/-- A start mask and the masks of the set flags are written with their low bits. -/
theorem encodeBitflags_objectFields
    (hjson : readJsonStringField bitflagsJson (txt "type") = some baseType)
    (htype : CarriesWords undefinedCast other baseType w bound rawOf) {start : ProtoDefValue}
    {mask : BitVec 128}
    (hstart : find (txt "_value") (objectFields raw (readBitflagValues bitflagsJson)) = some start)
    (hmask : asUInt128 undefinedCast start = .ok mask) (hlt : mask.toNat < 2 ^ bound)
    (hset : (flagMask raw.value (readBitflagValues bitflagsJson)).toNat < 2 ^ bound) :
    ∃ bytes, encodeBitflags undefinedCast other bitflagsJson
        (.object (objectFields raw (readBitflagValues bitflagsJson))) = .ok bytes ∧
      Reads (readRaw baseType) bytes (rawOf
        ((mask ||| flagMask raw.value (readBitflagValues bitflagsJson)).toNat % 2 ^ w)) := by
  obtain ⟨bytes, hencode, hread⟩ := htype.writes
    (mask ||| flagMask raw.value (readBitflagValues bitflagsJson)) (by
      rw [BitVec.toNat_or]
      exact Nat.or_lt_two_pow hlt hset)
  refine ⟨bytes, ?_, hread⟩
  rw [encodeBitflags, hjson, bitflagsMask_objectFields hstart hmask]
  exact hencode

/-- The decoded object of a raw value is encoded as that value exactly when it is kept. -/
theorem encodeBitflags_objectFields_iff
    (hjson : readJsonStringField bitflagsJson (txt "type") = some baseType)
    (htype : CarriesWords undefinedCast other baseType w bound rawOf) (hn : n < 2 ^ w) :
    (∃ bytes, encodeBitflags undefinedCast other bitflagsJson
          (.object (objectFields (rawOf n) (readBitflagValues bitflagsJson))) = .ok bytes ∧
        Reads (readRaw baseType) bytes (rawOf n)) ↔
      RawKept (rawOf n).value (readBitflagValues bitflagsJson) := by
  obtain ⟨hpos, hbound, -⟩ := htype.width
  have hpow : (2 : ℕ) ^ w ≤ 2 ^ bound := Nat.pow_le_pow_right (by decide) hbound
  have hvalue := htype.toNat_value hn
  obtain ⟨set, hset⟩ :
      ∃ set, set = flagMask (rawOf n).value (readBitflagValues bitflagsJson) := ⟨_, rfl⟩
  have hor : n ||| set.toNat = n := by
    have hboth := congrArg BitVec.toNat (or_flagMask (rawOf n).value (readBitflagValues bitflagsJson))
    rwa [BitVec.toNat_or, hvalue, ← hset] at hboth
  have hsetlt : set.toNat < 2 ^ w := lt_of_le_of_lt (hor ▸ Nat.right_le_or) hn
  by_cases hname : txt "_value" ∈ (readBitflagValues bitflagsJson).map Prod.fst
  · obtain ⟨⟨name, bit⟩, hbit, hfst⟩ := List.mem_map.mp hname
    obtain rfl : name = txt "_value" := hfst
    have hfind := (@find_value_objectFields bitflagsJson (rawOf n)).2
    obtain ⟨start, hstart⟩ : ∃ start : BitVec 128,
        start = if enabled (rawOf n).value bit then 1 else 0 := ⟨_, rfl⟩
    have hstartlt : start.toNat < 2 ^ w := by
      have htwo : (2 : ℕ) ^ 1 ≤ 2 ^ w := Nat.pow_le_pow_right (by decide) hpos
      rw [hstart]
      split
      · exact htwo
      · exact Nat.two_pow_pos w
    have hcast : asUInt128 undefinedCast (.bool (enabled (rawOf n).value bit)) = .ok start := by
      rw [hstart]
      cases enabled (rawOf n).value bit <;> rfl
    obtain ⟨bytes, hencode, hread⟩ := encodeBitflags_objectFields hjson htype (hfind bit hbit) hcast
      (by omega) (hset ▸ hsetlt.trans_le hpow)
    have hlt : (start ||| set).toNat < 2 ^ w := by
      rw [BitVec.toNat_or]
      exact Nat.or_lt_two_pow hstartlt hsetlt
    rw [← hset, Nat.mod_eq_of_lt hlt] at hread
    constructor
    · rintro ⟨bytes', hencode', hread'⟩ bit' hbit'
      obtain rfl := Except.ok.inj (hencode.symm.trans hencode')
      have henabled : enabled (rawOf n).value bit = enabled (rawOf n).value bit' :=
        ProtoDefValue.bool.inj (Option.some.inj ((hfind bit hbit).symm.trans (hfind bit' hbit')))
      have hboth := (hread 0 []).symm.trans (hread' 0 [])
      have hsame := congrArg RawFlags.value (Prod.mk.inj (Except.ok.inj hboth)).1
      rwa [htype.value _ hlt, BitVec.ofNat_toNat, BitVec.setWidth_eq, hstart, henabled,
        hset] at hsame
    · intro hkept
      have heq := hkept bit hbit
      rw [← hstart, ← hset] at heq
      rw [heq, hvalue] at hread
      exact ⟨bytes, hencode, hread⟩
  · refine iff_of_true ?_ fun bit hbit ↦ (hname (List.mem_map.mpr ⟨_, hbit, rfl⟩)).elim
    obtain ⟨mask, hmask, hlt, hmod⟩ := htype.mask n hn
    obtain ⟨bytes, hencode, hread⟩ := encodeBitflags_objectFields hjson htype
      ((find_value_objectFields (rawOf n)).1 hname) hmask hlt (hset ▸ hsetlt.trans_le hpow)
    refine ⟨bytes, hencode, ?_⟩
    rw [← hset, BitVec.toNat_or, Nat.or_mod_two_pow, hmod, Nat.mod_eq_of_lt hsetlt, hor] at hread
    exact hread

end OneType

end RawValues

/-- Encoding what was decoded writes the raw value again exactly when no flag called `_value`
covers it. -/
theorem bitflags_kept_iff (undefinedCast : UInt64 → UInt64)
    (other : Text → ProtoDefValue → Except String (List UInt8)) (bitflagsJson path baseType : Text)
    (hjson : readJsonStringField bitflagsJson (txt "type") = some baseType)
    (htype : baseType ∈ sharedTypes) (decoded decoded' : Decoded) (c c' : Cursor)
    (hrun : decodeBitflags true bitflagsJson path decoded c = .ok (decoded', c')) :
    ∃ raw new, readRaw baseType c = .ok (raw, c') ∧ decoded'.out = decoded.out ++ new ∧
      ((∃ bytes, encodeBitflags undefinedCast other bitflagsJson (decodedObject bitflagsJson new) =
            .ok bytes ∧ Reads (readRaw baseType) bytes raw) ↔
        RawKept raw.value (readBitflagValues bitflagsJson)) := by
  obtain ⟨raw, new, hread, hout, hobject⟩ := decodeBitflags_eq_ok hrun
  rw [hjson] at hread
  obtain ⟨w, bound, rawOf, hcarries⟩ :=
    @carries_sharedTypes undefinedCast other _ htype
  obtain ⟨n, hn, rfl⟩ := hcarries.yields c raw c' hread
  refine ⟨rawOf n, new, hread, hout, ?_⟩
  rw [hobject]
  exact encodeBitflags_objectFields_iff hjson hcarries hn

/-- A table with a flag for the first bit. -/
def flagTable (name : String) : Text :=
  txt "[\"bitflags\",\x7b\"type\":\"u8\",\"flags\":[\"" ++ txt name ++ txt "\"]\x7d]"

/-- Bits that no flag names are kept. -/
theorem bitflags_kept_iff_sneaking : ∃ decoded' raw new,
    decodeBitflags true (flagTable "sneaking") [] {} ⟨0, [0x85]⟩ = .ok (decoded', ⟨1, []⟩) ∧
      readRaw (txt "u8") ⟨0, [0x85]⟩ = .ok (raw, ⟨1, []⟩) ∧ decoded'.out = [] ++ new ∧
      ((∃ bytes, encodeBitflags (fun _ ↦ 0) (fun _ _ ↦ .error "unknown") (flagTable "sneaking")
            (decodedObject (flagTable "sneaking") new) = .ok bytes ∧
          Reads (readRaw (txt "u8")) bytes raw) ↔
        RawKept raw.value (readBitflagValues (flagTable "sneaking"))) := by
  obtain ⟨raw, new, h⟩ := bitflags_kept_iff (fun _ ↦ 0) (fun _ _ ↦ .error "unknown")
    (flagTable "sneaking") [] (txt "u8") (by decide) (by decide) {} _ ⟨0, [0x85]⟩ ⟨1, []⟩ rfl
  exact ⟨_, raw, new, rfl, h⟩

/-- A flag called `_value` takes the place of the raw value. -/
theorem bitflags_named_value :
    ¬∀ (decoded' : Decoded) (c' : Cursor) (raw : RawFlags),
      decodeBitflags true (flagTable "_value") [] {} ⟨0, [4]⟩ = .ok (decoded', c') →
      readRaw (txt "u8") ⟨0, [4]⟩ = .ok (raw, c') →
      ∃ bytes, encodeBitflags (fun _ ↦ 0) (fun _ _ ↦ .error "unknown") (flagTable "_value")
          (decodedObject (flagTable "_value") decoded'.out) = .ok bytes ∧
        Reads (readRaw (txt "u8")) bytes raw := by
  intro hall
  obtain ⟨bytes, hencode, hread⟩ := hall _ ⟨1, []⟩ (unsignedRaw 4) rfl rfl
  obtain rfl : [0] = bytes := Except.ok.inj hencode
  have hzero : readRaw (txt "u8") ⟨0, [0]⟩ = .ok (unsignedRaw 0, ⟨1, []⟩) := rfl
  have hboth := hzero.symm.trans (hread 0 [])
  have hvalue := congrArg RawFlags.value (Prod.mk.inj (Except.ok.inj hboth)).1
  revert hvalue
  decide

end Bitflags

end BedrockProtocol
