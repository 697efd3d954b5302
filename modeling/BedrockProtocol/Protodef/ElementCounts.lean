import BedrockProtocol.Protodef.ProtoDefTypes
import BedrockProtocol.Protodef.SchemaText

/-!
# Element counts

Arrays, buffers and strings with a count in front of them, and encapsulated
values with a length.  `writeCount` cuts the count to the width of its type and
`readCount` reads some of these types signed.  A count that is a field of its
own is not written again; the decoder looks it up in the context.  The types of
elements are parameters.
-/

namespace BedrockProtocol

namespace ElementCounts

open ProtoDefValue ProtoDefTypes SchemaText

/-! ## Counts -/

def writeCount (countType : Text) (count : ℕ) : Except String (List UInt8) :=
  if countType ∈ [txt "u8", txt "lu8", txt "li8"] then .ok (leBytes 1 count)
  else if countType ∈ [txt "u16", txt "i16"] then .ok (beBytes 2 count)
  else if countType ∈ [txt "lu16", txt "li16"] then .ok (leBytes 2 count)
  else if countType ∈ [txt "u32", txt "i32"] then .ok (beBytes 4 count)
  else if countType ∈ [txt "lu32", txt "li32"] then .ok (leBytes 4 count)
  else if countType ∈ [txt "varint", txt "varuint"] then .ok (leb128 4 (count % 2 ^ 32))
  else if countType = txt "zigzag32" then
    .ok (leb128 4 (encodeZigZag 32 (toUnsigned 32 count)))
  else if countType = txt "zigzag64" then
    .ok (leb128 9 (encodeZigZag 64 (toUnsigned 64 count)))
  else if countType ∈ [txt "varint64", txt "varuint64"] then .ok (leb128 9 (count % 2 ^ 64))
  else .error ("array encode unsupported countType: " ++ shown countType)

def checkedUnsigned (owner : String) (value : ℕ) : Except String ℤ :=
  if 2 ^ 63 - 1 < value then .error (owner ++ " count exceeds int64") else .ok value

def readCount (type : Text) (allowRemaining : Bool) (owner : String) : Reader ℤ :=
  let unsigned (read : Reader ℕ) : Reader ℤ := (fun n : ℕ ↦ (n : ℤ)) <$> read
  let signed (w : ℕ) (read : Reader ℕ) : Reader ℤ := toSigned w <$> read
  if type ∈ [txt "u8", txt "lu8"] then unsigned (UInt8.toNat <$> ProtoDefReader.u8)
  else if type ∈ [txt "i8", txt "li8"] then signed 8 (UInt8.toNat <$> ProtoDefReader.u8)
  else if type = txt "u16" then unsigned ProtoDefReader.u16be
  else if type = txt "i16" then signed 16 ProtoDefReader.u16be
  else if type = txt "lu16" then unsigned ProtoDefReader.u16le
  else if type = txt "li16" then signed 16 ProtoDefReader.u16le
  else if type = txt "u32" then unsigned ProtoDefReader.u32be
  else if type = txt "i32" then ProtoDefReader.i32be
  else if type = txt "lu32" then unsigned ProtoDefReader.u32le
  else if type = txt "li32" then ProtoDefReader.i32le
  else if type ∈ [txt "varint", txt "varuint"] then unsigned ProtoDefReader.varuint32
  else if type = txt "zigzag32" then ProtoDefReader.zigzag32
  else if type ∈ [txt "varint64", txt "varuint64"] then do
    let value ← ProtoDefReader.varuint64
    checkedUnsigned owner value
  else if type = txt "zigzag64" then ProtoDefReader.zigzag64
  else if allowRemaining ∧ type = txt "remaining" then do
    let remaining ← Reader.remaining
    checkedUnsigned owner remaining
  else throw (owner ++ " unsupported count type: " ++ shown type)

/-- The path of a field that is named relative to `currentPath`. -/
def resolveComparePath (currentPath compareTo : Text) : Text :=
  if txt "../" <+: compareTo then
    let base := (currentPath.rdropWhile (· ≠ 0x2e)).dropLast
    let rest := compareTo.drop 3
    if base = [] then rest else base ++ txt "." ++ rest
  else currentPath.rdropWhile (· ≠ 0x2e) ++ compareTo

/-- The text that the context has for a path, without a mapper's name. -/
def beforeSlash (raw : Text) : Text := raw.takeWhile (· ≠ 0x2f)

/-- The message when a count is negative. -/
def nonnegative (message : String) (count : ℤ) : Reader ℤ :=
  if count < 0 then throw message else pure count

/-! ## Encoders -/

section Encoding

variable (encode : Text → ProtoDefValue → Except String (List UInt8))

/-- What an array or a buffer has in front of it: nothing if its size is known otherwise. -/
def encodeSize (owner : String) (json : Text) (size : ℕ) : Except String (List UInt8) := do
  let fixedCount ← readJsonIntegerField json (txt "count")
  match fixedCount with
  | some expected =>
      if size ≠ expected then
        throw (owner ++ " encode fixed count mismatch: expected " ++ toString expected ++ ", got " ++
          toString size)
      else pure []
  | none =>
      if (readJsonStringField json (txt "count")).isSome then pure []
      else writeCount ((readJsonStringField json (txt "countType")).getD (txt "varint")) size

def encodeArray (arrayJson : Text) (value : ProtoDefValue) : Except String (List UInt8) :=
  match value with
  | .array items =>
      match readJsonValueField arrayJson (txt "type") with
      | none => .error "array encode item type not found"
      | some itemType => do
          let size ← encodeSize "array" arrayJson items.length
          let chunks ← items.mapM (encode itemType)
          .ok (size ++ chunks.flatten)
  | _ => .error "array encode expects array"

def encodeBuffer (bufferJson : Text) (value : ProtoDefValue) : Except String (List UInt8) :=
  match value with
  | .bytes content => do
      let size ← encodeSize "buffer" bufferJson content.length
      .ok (size ++ content)
  | _ => .error "buffer encode expects bytes"

def encodePString (stringJson : Text) (value : ProtoDefValue) : Except String (List UInt8) := do
  let text ← asString value
  let countType := (readJsonStringField stringJson (txt "countType")).getD (txt "varint")
  let size ← writeCount countType text.length
  .ok (size ++ text)

def encodeEncapsulated (encapsulatedJson : Text) (value : ProtoDefValue) :
    Except String (List UInt8) :=
  match readJsonValueField encapsulatedJson (txt "type") with
  | none => .error "encapsulated encode inner type not found"
  | some innerType => do
      let payload ← encode innerType value
      let lengthType := (readJsonStringField encapsulatedJson (txt "lengthType")).getD (txt "varint")
      let size ← writeCount lengthType payload.length
      .ok (size ++ payload)

end Encoding

/-! ## Decoders -/

/-- The texts that may hold a referenced count, the later ones where the earlier ones are empty.
An array also looks under the last part of the path. -/
def referencedText (owner : String) (lastPart : Bool) (path countRef : Text)
    (context : ProtoDefContext) : Except String Text :=
  let countPath := resolveComparePath path countRef
  let raw := context.get countPath
  let raw := if raw = [] then context.get countRef else raw
  let raw := if raw = [] ∧ lastPart then
      ((ProtoDefContext.shortKey countPath).map context.get).getD raw
    else raw
  if raw ≠ [] then .ok raw
  else if lastPart then
    .error (owner ++ " count field not found: " ++ shown countPath ++ " at path " ++ shown path)
  else .error (owner ++ " count field not found: " ++ shown countPath)

/-- The size of an array or a buffer. -/
def readSize (owner : String) (allowRemaining lastPart : Bool) (json path : Text)
    (context : ProtoDefContext) (fixedCount : Option ℕ) : Reader ℤ := do
  let count ← match fixedCount, readJsonStringField json (txt "count") with
    | some fixedCount, _ => pure (toSigned 64 fixedCount)
    | none, some countRef => do
        let raw ← referencedText owner lastPart path countRef context
        stoll (beforeSlash raw)
    | none, none =>
        readCount ((readJsonStringField json (txt "countType")).getD (txt "varint"))
          allowRemaining owner
  nonnegative (owner ++ " negative count") count

def readArraySize : Text → Text → ProtoDefContext → Option ℕ → Reader ℤ :=
  readSize "array" false true

def readBufferSize : Text → Text → ProtoDefContext → Option ℕ → Reader ℤ :=
  readSize "buffer" true false

def pstringLength (stringJson : Text) : Reader ℤ := do
  let countType := (readJsonStringField stringJson (txt "countType")).getD (txt "varint")
  let count ← readCount countType false "pstring"
  nonnegative "pstring negative length" count

def encapsulatedLength (encapsulatedJson : Text) : Reader ℤ := do
  let lengthType := (readJsonStringField encapsulatedJson (txt "lengthType")).getD (txt "varint")
  let length ← readCount lengthType false "encapsulated"
  nonnegative "encapsulated negative length" length

/-- The type of a field with a size. -/
def sizeType (fixed ref read : String) (json : Text) (fixedCount : Option ℕ) : Text :=
  match fixedCount, readJsonStringField json (txt "count") with
  | some fixedCount, _ => txt fixed ++ decimal fixedCount ++ txt ">"
  | none, some countRef => txt ref ++ countRef ++ txt ">"
  | none, none =>
      txt read ++ (readJsonStringField json (txt "countType")).getD (txt "varint") ++ txt ">"

section Decoding

variable (collectFields : Bool) (decode : Text → Text → Decoded → Reader Decoded)

def isScalarArrayType (typeJson : Text) : Bool :=
  isJsonString (trim typeJson) ∧ unquote (trim typeJson) ∈
    [txt "void", txt "bool", txt "byte", txt "u8", txt "lu8", txt "i8", txt "li8", txt "u16",
      txt "lu16", txt "i16", txt "li16", txt "u32", txt "lu32", txt "i32", txt "li32", txt "u64",
      txt "lu64", txt "i64", txt "li64", txt "varint", txt "varuint", txt "varint64",
      txt "varuint64", txt "varlong", txt "zigzag32", txt "zigzag64", txt "varint128", txt "f32",
      txt "lf32", txt "f64", txt "lf64"]

/-- The path of an element. -/
def itemPath (path : Text) (i : ℕ) : Text := path ++ txt "[" ++ decimal i ++ txt "]"

/-- The loop over `count` elements. -/
def decodeItems (itemType path : Text) (count : ℕ) (decoded : Decoded) : Reader Decoded :=
  let compact := !collectFields && isScalarArrayType itemType
  (List.range count).foldlM (fun decoded i ↦
    Reader.mapError (fun e ↦ "at " ++ shown (itemPath path i) ++ ": " ++ e)
      (decode itemType (if compact then path ++ txt "[]" else itemPath path i) decoded)) decoded

def decodeArray (arrayJson path : Text) (decoded : Decoded) : Reader Decoded := do
  let fixedCount ← readJsonIntegerField arrayJson (txt "count")
  match readJsonValueField arrayJson (txt "type") with
  | none => throw "array item type not found"
  | some itemType => do
      let start ← Reader.offset
      let count ← readArraySize arrayJson path decoded.context fixedCount
      let offset ← Reader.offset
      let countField : ProtoDefField :=
        { path := if path = [] then txt "$count" else path ++ txt ".$count",
          type := sizeType "array_count_fixed<" "array_count_ref<" "array_count<" arrayJson fixedCount,
          -- Nothing was consumed unless the count was read.
          value := decimalInt count, offset := start, size := offset - start }
      decodeItems collectFields decode itemType path count.toNat
        (decoded.record collectFields countField)

def decodeBuffer (bufferJson path : Text) (decoded : Decoded) : Reader Decoded := do
  let fixedCount ← readJsonIntegerField bufferJson (txt "count")
  let start ← Reader.offset
  let count ← readBufferSize bufferJson path decoded.context fixedCount
  let content ← ProtoDefReader.readBytes count.toNat
  let offset ← Reader.offset
  let field : ProtoDefField :=
    { path := if path = [] then txt "$buffer" else path,
      type := sizeType "buffer<count:" "buffer<count:" "buffer<" bufferJson fixedCount,
      value := txt "<Buffer bytes:" ++ decimalInt count ++ txt ">", offset := start,
      size := offset - start, structuredValue := some (.bytes content) }
  pure (decoded.record collectFields field)

def decodePString (stringJson path : Text) (decoded : Decoded) : Reader Decoded := do
  let start ← Reader.offset
  let count ← pstringLength stringJson
  let value ← Reader.many ProtoDefReader.u8 count.toNat
  let offset ← Reader.offset
  let encoding := (readJsonStringField stringJson (txt "encoding")).getD (txt "utf8")
  let field : ProtoDefField :=
    { path := if path = [] then txt "$string" else path,
      type := if encoding = txt "latin1" then txt "pstring<latin1>" else txt "pstring",
      value := value, offset := start, size := offset - start }
  pure (decoded.record collectFields field)

/-- The declared length is read and not used. -/
def decodeEncapsulated (encapsulatedJson path : Text) (decoded : Decoded) : Reader Decoded :=
  match readJsonValueField encapsulatedJson (txt "type") with
  | none => throw "encapsulated inner type not found"
  | some innerType => do
      let _ ← encapsulatedLength encapsulatedJson
      decode innerType path decoded

end Decoding

/-! ## Counts that are read back -/

/-- The counts below it are read back. -/
def countBound (countType : Text) : ℕ :=
  if countType ∈ [txt "u8", txt "lu8"] then 2 ^ 8
  else if countType = txt "li8" then 2 ^ 7
  else if countType ∈ [txt "u16", txt "lu16"] then 2 ^ 16
  else if countType ∈ [txt "i16", txt "li16"] then 2 ^ 15
  else if countType ∈ [txt "u32", txt "lu32", txt "varint", txt "varuint"] then 2 ^ 32
  else if countType ∈ [txt "i32", txt "li32", txt "zigzag32"] then 2 ^ 31
  else 2 ^ 63

/-- The reader returns the count, or throws, and returns it exactly if it is below the bound. -/
def CountReads (read : Reader ℤ) (bytes : List UInt8) (count bound : ℕ) : Prop :=
  ∃ x, ReadsTo read bytes x ∧ (x = .ok (count : ℤ) ↔ count < bound)

section Widths

variable {read : Reader ℕ} {bytes : List UInt8} {count w : ℕ}

theorem countReads_unsigned (hread : Reads read bytes (count % 2 ^ w)) :
    CountReads ((fun n : ℕ ↦ (n : ℤ)) <$> read) bytes count (2 ^ w) := by
  refine ⟨_, hread.map.readsTo, ?_⟩
  rw [Except.ok.injEq]
  have hlt : count % 2 ^ w < 2 ^ w := Nat.mod_lt _ (Nat.two_pow_pos w)
  constructor
  · intro heq
    rwa [show count % 2 ^ w = count by exact_mod_cast heq] at hlt
  · intro hcount
    rw [Nat.mod_eq_of_lt hcount]

theorem toSigned_mod_eq_iff (hw : 0 < w) : toSigned w (count % 2 ^ w) = count ↔
    count < 2 ^ (w - 1) := by
  have hlt : count % 2 ^ w < 2 ^ w := Nat.mod_lt _ (Nat.two_pow_pos w)
  have hpow : (2 : ℕ) ^ w = 2 * 2 ^ (w - 1) := by
    rw [← pow_succ']
    congr 1
    omega
  constructor
  · intro heq
    have hrange := (toSigned_inSigned hw hlt).2
    rw [heq] at hrange
    exact_mod_cast hrange
  · intro hcount
    rw [Nat.mod_eq_of_lt (by omega), toSigned, if_pos hcount]

theorem countReads_signed (hw : 0 < w) {read : Reader ℤ}
    (hread : Reads read bytes (toSigned w (count % 2 ^ w))) :
    CountReads read bytes count (2 ^ (w - 1)) := by
  refine ⟨_, hread.readsTo, ?_⟩
  rw [Except.ok.injEq]
  exact toSigned_mod_eq_iff hw

theorem toUnsigned_natCast (w n : ℕ) : toUnsigned w n = n % 2 ^ w := by
  rw [toUnsigned]
  norm_cast

theorem countReads_checked (owner : String) (count : ℕ) :
    CountReads (ProtoDefReader.varuint64 >>= fun value ↦ liftM (checkedUnsigned owner value))
      (leb128 9 (count % 2 ^ 64)) count (2 ^ 63) := by
  have hlt : count % 2 ^ 64 < 2 ^ 64 := Nat.mod_lt _ (by decide)
  refine ⟨checkedUnsigned owner (count % 2 ^ 64),
    ReadsTo.after_last (ProtoDefReader.reads_varuint64 hlt) (ReadsTo.lift _), ?_⟩
  rw [checkedUnsigned]
  split
  · refine iff_of_false (fun h ↦ by cases h) (by omega)
  · rw [Except.ok.injEq]
    constructor
    · intro heq
      have hsame : count % 2 ^ 64 = count := by exact_mod_cast heq
      omega
    · intro hcount
      rw [Nat.mod_eq_of_lt (by omega)]

end Widths

open ProtoDefReader in
/-- Every type that `writeCount` knows. -/
theorem countReads_readCount {countType : Text} {count : ℕ} {bytes : List UInt8}
    (h : writeCount countType count = .ok bytes) (allowRemaining : Bool) (owner : String) :
    CountReads (readCount countType allowRemaining owner) bytes count (countBound countType) := by
  have hvarint : count % 2 ^ 32 < 2 ^ 32 := Nat.mod_lt _ (by decide)
  have hzigzag32 := reads_zigzag32 count
  have hzigzag64 := reads_zigzag64 count
  rw [toUnsigned_natCast 32 count] at hzigzag32
  rw [toUnsigned_natCast 64 count] at hzigzag64
  simp only [writeCount, List.mem_cons, List.not_mem_nil, or_false] at h
  split at h
  · rename_i htype
    obtain rfl := Except.ok.inj h
    rcases htype with rfl | rfl | rfl
    · exact countReads_unsigned (reads_byte count)
    · exact countReads_unsigned (reads_byte count)
    · exact countReads_signed (by decide) (reads_byte count).map
  split at h
  · rename_i htype
    obtain rfl := Except.ok.inj h
    rcases htype with rfl | rfl
    · exact countReads_unsigned (reads_u16be count)
    · exact countReads_signed (by decide) (reads_u16be count).map
  split at h
  · rename_i htype
    obtain rfl := Except.ok.inj h
    rcases htype with rfl | rfl
    · exact countReads_unsigned (reads_u16le count)
    · exact countReads_signed (by decide) (reads_u16le count).map
  split at h
  · rename_i htype
    obtain rfl := Except.ok.inj h
    rcases htype with rfl | rfl
    · exact countReads_unsigned (reads_u32be count)
    · exact countReads_signed (by decide) (reads_u32be count).map
  split at h
  · rename_i htype
    obtain rfl := Except.ok.inj h
    rcases htype with rfl | rfl
    · exact countReads_unsigned (reads_u32le count)
    · exact countReads_signed (by decide) (reads_u32le count).map
  split at h
  · rename_i htype
    obtain rfl := Except.ok.inj h
    rcases htype with rfl | rfl
    · exact countReads_unsigned (reads_varuint32 hvarint)
    · exact countReads_unsigned (reads_varuint32 hvarint)
  split at h
  · rename_i htype
    obtain rfl := Except.ok.inj h
    subst htype
    rw [toUnsigned_natCast]
    exact countReads_signed (by decide) hzigzag32
  split at h
  · rename_i htype
    obtain rfl := Except.ok.inj h
    subst htype
    rw [toUnsigned_natCast]
    exact countReads_signed (by decide) hzigzag64
  split at h
  · rename_i htype
    obtain rfl := Except.ok.inj h
    rcases htype with rfl | rfl
    · exact countReads_checked owner count
    · exact countReads_checked owner count
  · cases h

namespace CountReads

variable {read : Reader ℤ} {bytes : List UInt8} {count bound : ℕ}

/-- A count that is read back is not negative. -/
theorem nonnegative (h : CountReads read bytes count bound) (message : String) :
    CountReads (read >>= ElementCounts.nonnegative message) bytes count bound := by
  obtain ⟨x, hread, hx⟩ := h
  refine ⟨x >>= fun count ↦ if count < 0 then .error message else .ok count,
    hread.bind_last fun z _ ↦ ?_, ?_⟩
  · rw [ElementCounts.nonnegative]
    split
    · exact fun offset suffix ↦ rfl
    · exact (Reads.pure z).readsTo
  · rw [← hx]
    constructor
    · intro heq
      obtain ⟨z, rfl, hz⟩ := bind_eq_ok.mp heq
      split at hz
      · cases hz
      · exact hz
    · rintro rfl
      rw [ok_bind, if_neg (Int.not_lt.mpr (Int.natCast_nonneg count))]

theorem reads_iff (h : CountReads read bytes count bound) :
    Reads read bytes (count : ℤ) ↔ count < bound := by
  obtain ⟨x, hread, hx⟩ := h
  rw [← hx]
  constructor
  · exact hread.eq_ok
  · rintro rfl
    exact hread

end CountReads

/-! ## Counted types -/

/-- The types with a number of elements or bytes. -/
inductive Counted
  | array
  | buffer
  | pstring
  | shortString
  | encapsulated

namespace Counted

section Encoding

variable (undefinedCast : UInt64 → UInt64)
  (other encode : Text → ProtoDefValue → Except String (List UInt8))

def encoder : Counted → Text → ProtoDefValue → Except String (List UInt8)
  | array, json, value => encodeArray encode json value
  | buffer, json, value => encodeBuffer json value
  | pstring, json, value => encodePString json value
  | shortString, _, value => encodeTypeName undefinedCast other (txt "ShortString") value
  | encapsulated, json, value => encodeEncapsulated encode json value

/-- The bytes after the count, and how many elements or bytes the value has. -/
def content : Counted → Text → ProtoDefValue → Except String (List UInt8 × ℕ)
  | array, json, .array items => do
      let chunks ← items.mapM (encode ((readJsonValueField json (txt "type")).getD []))
      .ok (chunks.flatten, items.length)
  | buffer, _, .bytes content => .ok (content, content.length)
  | pstring, _, .string text => .ok (text, text.length)
  | shortString, _, .string text => .ok (text, text.length)
  | encapsulated, json, value => do
      let payload ← encode ((readJsonValueField json (txt "type")).getD []) value
      .ok (payload, payload.length)
  | _, _, _ => .error "no content"

end Encoding

/-- The number of elements or bytes that the decoder goes by. -/
def size : Counted → Text → Text → ProtoDefContext → Reader ℤ
  | array, json, path, context => do
      let fixedCount ← readJsonIntegerField json (txt "count")
      readArraySize json path context fixedCount
  | buffer, json, path, context => do
      let fixedCount ← readJsonIntegerField json (txt "count")
      readBufferSize json path context fixedCount
  | pstring, json, _, _ => pstringLength json
  | shortString, _, _, _ => (fun n : ℕ ↦ (n : ℤ)) <$> ProtoDefReader.u16le
  | encapsulated, json, _, _ => encapsulatedLength json

/-- The decoder reads the number in front of the payload. -/
def Obtains (size : Reader ℤ) (bytes payload : List UInt8) (n : ℕ) : Prop :=
  ∃ header, bytes = header ++ payload ∧ Reads size header (n : ℤ)

/-- The text that the context has for a referenced count denotes the number. -/
def Refers (owner : String) (lastPart : Bool) (path countRef : Text) (context : ProtoDefContext)
    (n : ℕ) : Prop :=
  ∃ raw, referencedText owner lastPart path countRef context = .ok raw ∧
    stoll (beforeSlash raw) = .ok (n : ℤ)

/-- The number is fixed, or the referenced field denotes it, or it is below the bound of the type
of the count. -/
def SizeFits (owner : String) (lastPart : Bool) (json path : Text) (context : ProtoDefContext)
    (n : ℕ) : Prop :=
  match readJsonIntegerField json (txt "count"), readJsonStringField json (txt "count") with
  | .ok (some _), _ => n < 2 ^ 63
  | _, some countRef => Refers owner lastPart path countRef context n
  | _, none => n < countBound ((readJsonStringField json (txt "countType")).getD (txt "varint"))

/-- The number is one that the type can give back. -/
def Fits : Counted → Text → Text → ProtoDefContext → ℕ → Prop
  | array, json, path, context, n => SizeFits "array" true json path context n
  | buffer, json, path, context, n => SizeFits "buffer" false json path context n
  | pstring, json, _, _, n =>
      n < countBound ((readJsonStringField json (txt "countType")).getD (txt "varint"))
  | shortString, _, _, _, n => n < 2 ^ 16
  | encapsulated, json, _, _, n =>
      n < countBound ((readJsonStringField json (txt "lengthType")).getD (txt "varint"))

theorem obtains_append_iff {size : Reader ℤ} {header payload : List UInt8} {n : ℕ} :
    Obtains size (header ++ payload) payload n ↔ Reads size header (n : ℤ) := by
  constructor
  · rintro ⟨header', heq, hread⟩
    rwa [List.append_cancel_right heq]
  · exact fun hread ↦ ⟨header, rfl, hread⟩

section Sizes

variable {json path : Text} {context : ProtoDefContext} {owner : String}
  {allowRemaining lastPart : Bool} {n : ℕ} {header : List UInt8}

/-- A reader that consumes nothing returns the number exactly if the computation does. -/
theorem reads_lift_iff {x : Except String ℤ} (message : String) :
    Reads ((liftM x : Reader ℤ) >>= nonnegative message) [] (n : ℤ) ↔ x = .ok (n : ℤ) := by
  constructor
  · intro hread
    have hrun := hread 0 []
    cases x with
    | error e => cases hrun
    | ok z =>
        obtain ⟨z', c, hz, hrun⟩ := Reader.run_bind_eq_ok hrun
        obtain ⟨rfl, rfl⟩ := Prod.mk.inj (Except.ok.inj hz)
        rw [nonnegative] at hrun
        split at hrun
        · cases hrun
        · exact congrArg Except.ok (Prod.mk.inj (Except.ok.inj hrun)).1
  · rintro rfl
    refine (Reads.pure (n : ℤ)).bind_nil ?_
    rw [nonnegative, if_neg (Int.not_lt.mpr (Int.natCast_nonneg n))]
    exact Reads.pure _

theorem readSize_fixed (fixedCount : ℕ) :
    readSize owner allowRemaining lastPart json path context (some fixedCount) =
      liftM (Except.ok (toSigned 64 fixedCount) : Except String ℤ) >>=
        nonnegative (owner ++ " negative count") := rfl

theorem readSize_referenced {countRef : Text}
    (hcount : readJsonStringField json (txt "count") = some countRef) :
    readSize owner allowRemaining lastPart json path context none =
      liftM (referencedText owner lastPart path countRef context >>= fun raw ↦
        stoll (beforeSlash raw)) >>= nonnegative (owner ++ " negative count") := by
  simp only [readSize, hcount]
  cases referencedText owner lastPart path countRef context with
  | error e => rfl
  | ok raw => rfl

theorem readSize_counted (hcount : readJsonStringField json (txt "count") = none) :
    readSize owner allowRemaining lastPart json path context none =
      readCount ((readJsonStringField json (txt "countType")).getD (txt "varint")) allowRemaining
        owner >>= nonnegative (owner ++ " negative count") := by
  simp only [readSize, hcount]

/-- What `encodeSize` writes for a number is read as that number exactly if it fits. -/
theorem reads_readSize_iff (hencode : encodeSize owner json n = .ok header) :
    Reads (do
        let fixedCount ← readJsonIntegerField json (txt "count")
        readSize owner allowRemaining lastPart json path context fixedCount) header (n : ℤ) ↔
      SizeFits owner lastPart json path context n := by
  rw [encodeSize] at hencode
  obtain ⟨fixedCount, hfixed, hencode⟩ := bind_eq_ok.mp hencode
  have hstep : (do
      let fixedCount ← (liftM (readJsonIntegerField json (txt "count")) : Reader (Option ℕ))
      readSize owner allowRemaining lastPart json path context fixedCount) =
      readSize owner allowRemaining lastPart json path context fixedCount := by
    rw [hfixed]
    rfl
  rw [hstep, SizeFits, hfixed]
  cases fixedCount with
  | some expected =>
      dsimp only at hencode
      split at hencode
      · cases hencode
      · rename_i hsame
        obtain rfl := not_not.mp hsame
        obtain rfl : [] = header := Except.ok.inj hencode
        change _ ↔ n < 2 ^ 63
        rw [readSize_fixed, reads_lift_iff, Except.ok.injEq, toSigned]
        split
        · rename_i hlt
          exact iff_of_true rfl hlt
        · rename_i hle
          exact iff_of_false (by omega) hle
  | none =>
      cases hcount : readJsonStringField json (txt "count") with
      | some countRef =>
          rw [hcount] at hencode
          obtain rfl : [] = header := Except.ok.inj hencode
          rw [readSize_referenced hcount, reads_lift_iff]
          exact bind_eq_ok
      | none =>
          rw [hcount] at hencode
          rw [readSize_counted hcount]
          exact ((countReads_readCount hencode allowRemaining owner).nonnegative _).reads_iff

end Sizes

/-! ## What the decoders do with a number that was read -/

section Runs

variable {json path : Text} {decoded : Decoded} {header : List UInt8} {n : ℕ}

/-- The decoder of an array goes on with exactly that many elements. -/
theorem decodeArray_run (collectFields : Bool) (decode : Text → Text → Decoded → Reader Decoded)
    {itemType : Text} (htype : readJsonValueField json (txt "type") = some itemType)
    (hsize : Reads (size array json path decoded.context) header (n : ℤ)) (offset : ℕ)
    (suffix : List UInt8) :
    ∃ countField, countField.path = (if path = [] then txt "$count" else path ++ txt ".$count") ∧
      countField.value = decimal n ∧ countField.structuredValue = none ∧
      decodeArray collectFields decode json path decoded ⟨offset, header ++ suffix⟩ =
        decodeItems collectFields decode itemType path n (decoded.record collectFields countField)
          ⟨offset + header.length, suffix⟩ := by
  have hrun := hsize offset suffix
  obtain ⟨fixed, c, hfixed, hread⟩ := Reader.run_bind_eq_ok hrun
  obtain ⟨-, rfl⟩ := Reader.lift_eq_ok.mp hfixed
  refine ⟨{ path := if path = [] then txt "$count" else path ++ txt ".$count",
            type := sizeType "array_count_fixed<" "array_count_ref<" "array_count<" json fixed,
            value := decimalInt n, offset := offset,
            size := offset + header.length - offset }, rfl, decimalInt_natCast n, rfl, ?_⟩
  rw [decodeArray, Reader.bind_run hfixed, htype]
  dsimp only
  rw [Reader.offset_run, Reader.bind_run hread, Reader.offset_run, Int.toNat_natCast]

/-- The decoder of a buffer returns exactly that many bytes. -/
theorem decodeBuffer_run (collectFields : Bool) {content : List UInt8}
    (hsize : Reads (size buffer json path decoded.context) header (content.length : ℤ)) (offset : ℕ)
    (suffix : List UInt8) :
    ∃ field, field.path = (if path = [] then txt "$buffer" else path) ∧
      field.value = txt "<Buffer bytes:" ++ decimalInt content.length ++ txt ">" ∧
      field.structuredValue = some (.bytes content) ∧
      decodeBuffer collectFields json path decoded ⟨offset, header ++ (content ++ suffix)⟩ =
        .ok (decoded.record collectFields field,
          ⟨offset + header.length + content.length, suffix⟩) := by
  have hrun := hsize offset (content ++ suffix)
  obtain ⟨fixed, c, hfixed, hread⟩ := Reader.run_bind_eq_ok hrun
  obtain ⟨-, rfl⟩ := Reader.lift_eq_ok.mp hfixed
  have hbytes : ProtoDefReader.readBytes content.length ⟨offset + header.length, content ++ suffix⟩ =
      .ok (content, ⟨offset + header.length + content.length, suffix⟩) :=
    Reads.take content rfl _ _
  refine ⟨{ path := if path = [] then txt "$buffer" else path,
            type := sizeType "buffer<count:" "buffer<count:" "buffer<" json fixed,
            value := txt "<Buffer bytes:" ++ decimalInt content.length ++ txt ">",
            offset := offset, size := offset + header.length + content.length - offset,
            structuredValue := some (.bytes content) }, rfl, rfl, rfl, ?_⟩
  rw [decodeBuffer, Reader.bind_run hfixed, Reader.offset_run, Reader.bind_run hread,
    Int.toNat_natCast, Reader.bind_run hbytes, Reader.offset_run]
  rfl

/-- Byte after byte. -/
theorem reads_many_u8 (text : Text) : Reads (Reader.many ProtoDefReader.u8 text.length) text text := by
  have hread : Reads (Reader.many ProtoDefReader.u8 text.length) (text.flatMap fun b ↦ [b])
      (text.map fun b ↦ b) := Reads.many text fun b _ ↦ ProtoDefReader.reads_u8 b
  rwa [List.flatMap_singleton', List.map_id'] at hread

/-- The decoder of a string returns exactly that many bytes. -/
theorem decodePString_run (collectFields : Bool) {text : Text}
    (hsize : Reads (size pstring json path decoded.context) header (text.length : ℤ)) (offset : ℕ)
    (suffix : List UInt8) :
    ∃ field, field.path = (if path = [] then txt "$string" else path) ∧ field.value = text ∧
      field.structuredValue = none ∧
      decodePString collectFields json path decoded ⟨offset, header ++ (text ++ suffix)⟩ =
        .ok (decoded.record collectFields field, ⟨offset + header.length + text.length, suffix⟩) := by
  have hread := hsize offset (text ++ suffix)
  rw [size] at hread
  refine ⟨{ path := if path = [] then txt "$string" else path,
            type := if (readJsonStringField json (txt "encoding")).getD (txt "utf8") = txt "latin1"
              then txt "pstring<latin1>" else txt "pstring",
            value := text, offset := offset,
            size := offset + header.length + text.length - offset }, rfl, rfl, rfl, ?_⟩
  rw [decodePString, Reader.offset_run, Reader.bind_run hread, Int.toNat_natCast,
    Reader.bind_run (reads_many_u8 text _ _), Reader.offset_run]
  rfl

/-- The decoder of an encapsulated value goes on with the value. -/
theorem decodeEncapsulated_run (decode : Text → Text → Decoded → Reader Decoded) {innerType : Text}
    (htype : readJsonValueField json (txt "type") = some innerType)
    (hsize : Reads (size encapsulated json path decoded.context) header (n : ℤ)) (offset : ℕ)
    (suffix : List UInt8) :
    decodeEncapsulated decode json path decoded ⟨offset, header ++ suffix⟩ =
      decode innerType path decoded ⟨offset + header.length, suffix⟩ := by
  have hread := hsize offset suffix
  rw [size] at hread
  rw [decodeEncapsulated, htype]
  dsimp only
  rw [Reader.bind_run hread]

end Runs

end Counted

open Counted

/-- The decoder goes by the number of elements or bytes of an encoded value exactly if the number
fits the count. -/
theorem counts_faithful_iff (undefinedCast : UInt64 → UInt64)
    (other encode : Text → ProtoDefValue → Except String (List UInt8)) (kind : Counted)
    (json : Text) (value : ProtoDefValue) (bytes : List UInt8)
    (hencode : kind.encoder undefinedCast other encode json value = .ok bytes) :
    ∃ payload n, kind.content encode json value = .ok (payload, n) ∧
      ∀ path context, Obtains (kind.size json path context) bytes payload n ↔
        kind.Fits json path context n := by
  cases kind with
  | array =>
      cases value with
      | array items =>
          rw [encoder, encodeArray] at hencode
          split at hencode
          · cases hencode
          · rename_i itemType htype
            obtain ⟨header, hheader, hencode⟩ := bind_eq_ok.mp hencode
            obtain ⟨chunks, hchunks, hencode⟩ := bind_eq_ok.mp hencode
            obtain rfl := Except.ok.inj hencode
            refine ⟨chunks.flatten, items.length, ?_, fun path context ↦ ?_⟩
            · rw [content, htype, Option.getD_some, hchunks]
              rfl
            · exact obtains_append_iff.trans (reads_readSize_iff hheader)
      | _ => cases hencode
  | buffer =>
      cases value with
      | bytes payload =>
          obtain ⟨header, hheader, hencode⟩ := bind_eq_ok.mp hencode
          obtain rfl := Except.ok.inj hencode
          exact ⟨payload, payload.length, rfl,
            fun path context ↦ obtains_append_iff.trans (reads_readSize_iff hheader)⟩
      | _ => cases hencode
  | pstring =>
      obtain ⟨text, htext, hencode⟩ := bind_eq_ok.mp hencode
      obtain ⟨header, hheader, hencode⟩ := bind_eq_ok.mp hencode
      obtain rfl := Except.ok.inj hencode
      cases value with
      | string value =>
          obtain rfl := Except.ok.inj htext
          exact ⟨value, value.length, rfl, fun path context ↦ obtains_append_iff.trans
            ((countReads_readCount hheader false "pstring").nonnegative _).reads_iff⟩
      | _ => cases htext
  | shortString =>
      obtain ⟨text, htext, rfl⟩ := map_eq_ok.mp hencode
      cases value with
      | string value =>
          obtain rfl := Except.ok.inj htext
          exact ⟨value, value.length, rfl, fun path context ↦ obtains_append_iff.trans
            (countReads_unsigned (ProtoDefReader.reads_u16le value.length)).reads_iff⟩
      | _ => cases htext
  | encapsulated =>
      rw [encoder, encodeEncapsulated] at hencode
      split at hencode
      · cases hencode
      · rename_i innerType htype
        obtain ⟨payload, hpayload, hencode⟩ := bind_eq_ok.mp hencode
        obtain ⟨header, hheader, hencode⟩ := bind_eq_ok.mp hencode
        obtain rfl := Except.ok.inj hencode
        refine ⟨payload, payload.length, ?_, fun path context ↦ obtains_append_iff.trans
          ((countReads_readCount hheader false "encapsulated").nonnegative _).reads_iff⟩
        rw [content, htype, Option.getD_some, hpayload]
        rfl

/-- Elements whose type is a name. -/
def encodeNamed (typeJson : Text) (value : ProtoDefValue) : Except String (List UInt8) :=
  encodeTypeName (fun _ ↦ 0) (fun _ _ ↦ .error "unknown") (unquote (trim typeJson)) value

def boolArray : Text := txt "[\"array\",\x7b\"countType\":\"u8\",\"type\":\"bool\"\x7d]"

theorem counts_faithful_iff_bools : ∃ payload n,
    Counted.array.content encodeNamed boolArray (.array [.bool true, .bool false]) =
        .ok (payload, n) ∧
      ∀ path context, Obtains (Counted.array.size boolArray path context) [2, 1, 0] payload n ↔
        Counted.array.Fits boolArray path context n :=
  counts_faithful_iff (fun _ ↦ 0) (fun _ _ ↦ .error "unknown") encodeNamed .array boolArray
    (.array [.bool true, .bool false]) [2, 1, 0] (by decide)

def li8Buffer : Text := txt "[\"buffer\",\x7b\"countType\":\"li8\"\x7d]"

/-- A buffer of 128 bytes under a count that is read signed. -/
theorem buffer_li8_negative :
    ¬∀ (value : ProtoDefValue) (bytes payload : List UInt8) (n : ℕ),
      Counted.buffer.encoder (fun _ ↦ 0) (fun _ _ ↦ .error "unknown") encodeNamed li8Buffer value =
        .ok bytes →
      Counted.buffer.content encodeNamed li8Buffer value = .ok (payload, n) →
      Obtains (Counted.buffer.size li8Buffer [] {}) bytes payload n := by
  intro hall
  obtain ⟨content, hcontent⟩ : ∃ content : List UInt8, content.length = 128 :=
    ⟨List.replicate 128 0, List.length_replicate⟩
  have hsize : encodeSize "buffer" li8Buffer 128 = .ok [0x80] := rfl
  have hencode : encodeBuffer li8Buffer (.bytes content) = .ok ([0x80] ++ content) := by
    rw [encodeBuffer, hcontent, hsize]
    rfl
  obtain ⟨header, heq, hread⟩ := hall (.bytes content) _ content content.length hencode rfl
  obtain rfl := List.append_cancel_right heq
  have hrun := hread 0 []
  have hthrow : Counted.buffer.size li8Buffer [] {} ⟨0, [0x80]⟩ = .error "buffer negative count" :=
    rfl
  have hboth := hthrow.symm.trans hrun
  cases hboth

end ElementCounts

end BedrockProtocol
