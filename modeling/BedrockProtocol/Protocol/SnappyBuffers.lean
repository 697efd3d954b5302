import BedrockProtocol.Lib.Lockstep
import BedrockProtocol.Protocol.SnappyCodec

/-!
# The Snappy decompressor and its buffers

`SnappyCodec::decompress` reads its input at one offset and writes an output of
the declared length, all zero at first, at another.  Here every access is
checked: an index past the end of a buffer, or a difference of sizes that would
wrap, is a fault of its own.  The checks never fail, and what the buffers hold
is what the reader of elements returns.
-/

namespace BedrockProtocol

namespace SnappyBuffers

open SnappyCodec

inductive SnappyFault
  /-- `SnappyCodecError`. -/
  | codecError (message : String)
  | outOfRange
  deriving DecidableEq, Repr

open SnappyFault

/-! ## Checked accesses -/

def byteAt (buffer : List UInt8) (i : ℕ) : Except SnappyFault UInt8 :=
  match buffer[i]? with
  | none => .error outOfRange
  | some b => .ok b

def setByteAt (buffer : List UInt8) (i : ℕ) (b : UInt8) : Except SnappyFault (List UInt8) :=
  if buffer.length ≤ i then .error outOfRange else .ok (buffer.set i b)

/-- `a - b` on sizes, which must not wrap. -/
def difference (a b : ℕ) : Except SnappyFault ℕ :=
  if a < b then .error outOfRange else .ok (a - b)

/-! ## Decompression -/

/-- The loop over the shifts 0, 7, …, 28; `turns` of them are left. -/
def readVarUInt32From (input : List UInt8) :
    ℕ → (shift value offset : ℕ) → Except SnappyFault (ℕ × ℕ)
  | 0, _, _, _ => .error (codecError "snappy uncompressed length is invalid")
  | turns + 1, shift, value, offset =>
      if input.length ≤ offset then
        .error (codecError "snappy uncompressed length is truncated")
      else do
        let b ← byteAt input offset
        if shift = 28 ∧ b.toNat &&& 0xf0 ≠ 0 then
          .error (codecError "snappy uncompressed length is invalid")
        else
          let value := value ||| (((b.toNat &&& 0x7f) <<< shift) % 2 ^ 32)
          if b.toNat &&& 0x80 = 0 then .ok (value, offset + 1)
          else readVarUInt32From input turns (shift + 7) value (offset + 1)

def readVarUInt32 (input : List UInt8) (offset : ℕ) : Except SnappyFault (ℕ × ℕ) :=
  if input = [] then
    .error (codecError "snappy block is missing the uncompressed length")
  else readVarUInt32From input 5 0 0 offset

/-- The loop over the bytes of a word, the next of them numbered `i`. -/
def readLittleEndianFrom (input : List UInt8) :
    ℕ → (i value offset : ℕ) → Except SnappyFault (ℕ × ℕ)
  | 0, _, value, offset => .ok (value, offset)
  | count + 1, i, value, offset => do
      let b ← byteAt input offset
      readLittleEndianFrom input count (i + 1) (value ||| ((b.toNat <<< (8 * i)) % 2 ^ 32))
        (offset + 1)

def readLittleEndian (input : List UInt8) (offset byteCount : ℕ) (truncatedMessage : String) :
    Except SnappyFault (ℕ × ℕ) := do
  let left ← difference input.length offset
  if left < byteCount then .error (codecError truncatedMessage)
  else readLittleEndianFrom input byteCount 0 0 offset

/-- `std::copy_n` from the input to the output. -/
def copyN (input : List UInt8) :
    ℕ → (inputOffset : ℕ) → List UInt8 → (outputOffset : ℕ) → Except SnappyFault (List UInt8)
  | 0, _, output, _ => .ok output
  | count + 1, inputOffset, output, outputOffset => do
      let b ← byteAt input inputOffset
      let output ← setByteAt output outputOffset b
      copyN input count (inputOffset + 1) output (outputOffset + 1)

/-- The byte-by-byte loop of a copy inside the output. -/
def copyWithin (copyOffset : ℕ) :
    ℕ → List UInt8 → (outputOffset : ℕ) → Except SnappyFault (List UInt8)
  | 0, output, _ => .ok output
  | copyLength + 1, output, outputOffset => do
      let source ← difference outputOffset copyOffset
      let b ← byteAt output source
      let output ← setByteAt output outputOffset b
      copyWithin copyOffset copyLength output (outputOffset + 1)

/-- The local variables of the loop over the elements. -/
structure State where
  inputOffset : ℕ
  output : List UInt8
  outputOffset : ℕ

def readLiteralLength (input : List UInt8) (encodedLength offset : ℕ) :
    Except SnappyFault (ℕ × ℕ) :=
  if encodedLength < 60 then .ok (encodedLength + 1, offset)
  else do
    let (lengthMinusOne, offset) ← readLittleEndian input offset (encodedLength - 59)
      "snappy literal length is truncated"
    .ok (lengthMinusOne + 1, offset)

/-- A literal, its tag read. -/
def readLiteral (input : List UInt8) (tag : ℕ) (s : State) : Except SnappyFault State := do
  let (literalLength, inputOffset) ← readLiteralLength input (tag >>> 2) s.inputOffset
  let left ← difference input.length inputOffset
  if left < literalLength then .error (codecError "snappy literal is truncated")
  else do
    let room ← difference s.output.length s.outputOffset
    if room < literalLength then .error (codecError "snappy literal exceeds the declared size")
    else do
      let output ← copyN input literalLength inputOffset s.output s.outputOffset
      .ok ⟨inputOffset + literalLength, output, s.outputOffset + literalLength⟩

/-- The checks and the loop that the three copies share. -/
def applyCopy (copyLength copyOffset : ℕ) (s : State) : Except SnappyFault State :=
  if copyOffset = 0 ∨ s.outputOffset < copyOffset then
    .error (codecError "snappy copy offset is invalid")
  else do
    let room ← difference s.output.length s.outputOffset
    if room < copyLength then .error (codecError "snappy copy exceeds the declared size")
    else do
      let output ← copyWithin copyOffset copyLength s.output s.outputOffset
      .ok { s with output, outputOffset := s.outputOffset + copyLength }

/-- A copy whose offset takes `byteCount` bytes after the tag. -/
def readCopy (input : List UInt8) (byteCount copyLength offsetHigh : ℕ) (truncatedMessage : String)
    (s : State) : Except SnappyFault State := do
  let (offsetLow, inputOffset) ← readLittleEndian input s.inputOffset byteCount truncatedMessage
  applyCopy copyLength (offsetHigh ||| offsetLow) { s with inputOffset }

/-- One turn of the loop. -/
def readElement (input : List UInt8) (s : State) : Except SnappyFault State := do
  let b ← byteAt input s.inputOffset
  let tag := b.toNat
  let s := { s with inputOffset := s.inputOffset + 1 }
  if tag &&& 0x03 = 0 then readLiteral input tag s
  else if tag &&& 0x03 = 1 then
    readCopy input 1 (4 + ((tag >>> 2) &&& 0x07)) ((tag &&& 0xe0) <<< 3)
      "snappy copy-1 offset is truncated" s
  else if tag &&& 0x03 = 2 then
    readCopy input 2 (1 + (tag >>> 2)) 0 "snappy copy-2 offset is truncated" s
  else readCopy input 4 (1 + (tag >>> 2)) 0 "snappy copy-4 offset is truncated" s

/-- The loop; a turn takes at least one byte of the input, so its length is enough
turns. -/
def readElements (input : List UInt8) : ℕ → State → Except SnappyFault State
  | 0, s => .ok s
  | turns + 1, s =>
      if input.length ≤ s.inputOffset ∨ s.output.length ≤ s.outputOffset then .ok s
      else do
        let s ← readElement input s
        readElements input turns s

def decompress (input : List UInt8) : Except SnappyFault (List UInt8) := do
  let (declaredLength, inputOffset) ← readVarUInt32 input 0
  let s ← readElements input (input.length - inputOffset)
    ⟨inputOffset, List.replicate declaredLength 0, 0⟩
  if s.outputOffset ≠ s.output.length then
    .error (codecError "snappy block ended before the declared size")
  else if s.inputOffset ≠ input.length then .error (codecError "snappy block has trailing data")
  else .ok s.output

/-! ## What the accesses do -/

variable {input output produced : List UInt8} {offset : ℕ}

/-- The reader's view of an offset. -/
def cursorAt (input : List UInt8) (offset : ℕ) : Cursor := ⟨offset, input.drop offset⟩

theorem byteAt_eq_ok {i : ℕ} (h : i < input.length) : byteAt input i = .ok input[i] := by
  rw [byteAt, List.getElem?_eq_getElem h]

theorem setByteAt_eq_ok {i : ℕ} {b : UInt8} (h : i < output.length) :
    setByteAt output i b = .ok (output.set i b) := by
  rw [setByteAt, if_neg (by omega)]

theorem difference_eq_ok {a b : ℕ} (h : b ≤ a) : difference a b = .ok (a - b) := by
  rw [difference, if_neg (by omega)]

theorem byte_cursorAt {short : Cursor → String} (h : offset < input.length) :
    Reader.byte short (cursorAt input offset) =
      .ok (input[offset], cursorAt input (offset + 1)) := by
  rw [cursorAt, List.drop_eq_getElem_cons h]
  rfl

theorem byte_cursorAt_end {short : Cursor → String} (h : input.length ≤ offset) :
    Reader.byte short (cursorAt input offset) = .error (short (cursorAt input offset)) := by
  rw [cursorAt, List.drop_eq_nil_of_le h]
  rfl

/-- A fault that is the exception the reader throws. -/
def IsCodecError (fault : SnappyFault) (message : String) : Prop := fault = codecError message

/-- The value and the offset are those of the reader. -/
def AtCursor (input : List UInt8) (a : ℕ × ℕ) (b : ℕ × Cursor) : Prop :=
  a.1 = b.1 ∧ b.2 = cursorAt input a.2 ∧ a.2 ≤ input.length

theorem lockstep_readVarUInt32From (turns shift value : ℕ) (hoffset : offset ≤ input.length) :
    Lockstep IsCodecError (AtCursor input) (readVarUInt32From input turns shift value offset)
      (readLeb128 readLengthByte "snappy uncompressed length is invalid" 32 turns shift value
        (cursorAt input offset)) := by
  induction turns generalizing shift value offset with
  | zero => exact .throw rfl
  | succ turns ih =>
      rw [readVarUInt32From, readLeb128]
      by_cases hend : input.length ≤ offset
      · have hbyte : readLengthByte shift (cursorAt input offset) =
            .error "snappy uncompressed length is truncated" := by
          rw [readLengthByte, Reader.bind_error (byte_cursorAt_end hend)]
        rw [if_pos hend, Reader.bind_error hbyte]
        exact .throw rfl
      · have hlt : offset < input.length := by omega
        rw [if_neg hend, byteAt_eq_ok hlt, ok_bind]
        by_cases hlast : shift = 28 ∧ input[offset].toNat &&& 0xf0 ≠ 0
        · have hbyte : readLengthByte shift (cursorAt input offset) =
              .error "snappy uncompressed length is invalid" := by
            rw [readLengthByte, Reader.bind_run (byte_cursorAt hlt), if_pos hlast]
            rfl
          rw [if_pos hlast, Reader.bind_error hbyte]
          exact .throw rfl
        · have hbyte : readLengthByte shift (cursorAt input offset) =
              .ok (input[offset], cursorAt input (offset + 1)) := by
            rw [readLengthByte, Reader.bind_run (byte_cursorAt hlt), if_neg hlast]
            rfl
          rw [if_neg hlast, Reader.bind_run hbyte]
          dsimp only
          by_cases hstop : input[offset].toNat &&& 0x80 = 0
          · rw [if_pos hstop, if_pos hstop]
            exact .pure ⟨rfl, rfl, hlt⟩
          · rw [if_neg hstop, if_neg hstop]
            exact ih (shift + 7) _ hlt

theorem lockstep_readVarUInt32 (input : List UInt8) :
    Lockstep IsCodecError (AtCursor input) (readVarUInt32 input 0)
      (SnappyCodec.readVarUInt32 (Cursor.start input)) := by
  have hstart : Cursor.start input = cursorAt input 0 := rfl
  rw [readVarUInt32, SnappyCodec.readVarUInt32, Reader.remaining_run, hstart]
  by_cases hempty : input = []
  · subst hempty
    exact .throw rfl
  · have hlength : (cursorAt input 0).rest.length ≠ 0 := by
      simpa [cursorAt] using hempty
    rw [if_neg hempty, if_neg hlength]
    exact lockstep_readVarUInt32From 5 0 0 (Nat.zero_le _)

theorem readLittleEndianFrom_eq_ok {count i value : ℕ} (hin : offset + count ≤ input.length)
    (hi : i + count ≤ 4) (hvalue : value < 256 ^ i) :
    readLittleEndianFrom input count i value offset =
      .ok (value + 256 ^ i * leValue ((input.drop offset).take count), offset + count) := by
  induction count generalizing i value offset with
  | zero => simp [readLittleEndianFrom, leValue]
  | succ count ih =>
      have hlt : offset < input.length := by omega
      have hbyte := (input[offset]).toNat_lt
      have hpow : (2 : ℕ) ^ (8 * i) = 256 ^ i := by rw [pow_mul]; rfl
      have hnext : (256 : ℕ) ^ (i + 1) = 256 * 256 ^ i := pow_succ' 256 i
      have hword : (256 : ℕ) ^ (i + 1) ≤ 256 ^ 4 := Nat.pow_le_pow_right (by omega) (by omega)
      have hgroup : input[offset].toNat * 256 ^ i ≤ 255 * 256 ^ i :=
        Nat.mul_le_mul_right _ (by omega)
      have hor : value ||| ((input[offset].toNat <<< (8 * i)) % 2 ^ 32) =
          value + input[offset].toNat * 256 ^ i := by
        rw [← hpow]
        refine leb128_group (by rwa [hpow]) ?_
        rw [hpow]
        omega
      rw [readLittleEndianFrom, byteAt_eq_ok hlt, ok_bind, hor,
        ih (by omega) (by omega) (by omega), List.drop_eq_getElem_cons hlt, List.take_succ_cons,
        leValue, hnext, Nat.add_assoc offset, Nat.add_comm 1 count]
      congr 2
      ring

theorem lockstep_readLittleEndian {byteCount : ℕ} (message : String) (hcount : byteCount ≤ 4)
    (hoffset : offset ≤ input.length) :
    Lockstep IsCodecError (AtCursor input) (readLittleEndian input offset byteCount message)
      (SnappyCodec.readLittleEndian byteCount message (cursorAt input offset)) := by
  have hrest : (cursorAt input offset).rest.length = input.length - offset := by
    rw [cursorAt, List.length_drop]
  rw [readLittleEndian, difference_eq_ok hoffset, ok_bind, SnappyCodec.readLittleEndian]
  by_cases hshort : input.length - offset < byteCount
  · have htake : Reader.take byteCount (fun _ ↦ message) (cursorAt input offset) =
        .error message := by
      rw [Reader.take, if_neg (by omega)]
    rw [if_pos hshort, Reader.bind_error htake]
    exact .throw rfl
  · have htake : Reader.take byteCount (fun _ ↦ message) (cursorAt input offset) =
        .ok ((input.drop offset).take byteCount, cursorAt input (offset + byteCount)) := by
      rw [Reader.take, if_pos (by omega), cursorAt, cursorAt, List.drop_drop]
    rw [if_neg hshort, Reader.bind_run htake,
      readLittleEndianFrom_eq_ok (by omega) (by omega) (by simp)]
    exact .pure ⟨by simp, rfl, by simp only; omega⟩

/-- A buffer whose first part is written and whose rest is not. -/
theorem set_length_append {b a : UInt8} {tail : List UInt8} :
    (produced ++ a :: tail).set produced.length b = (produced ++ [b]) ++ tail := by
  rw [List.set_append_right _ _ le_rfl, Nat.sub_self, List.set_cons_zero, List.append_assoc]
  rfl

theorem copyN_eq_ok {count : ℕ} {tail : List UInt8} (hin : offset + count ≤ input.length)
    (hroom : count ≤ tail.length) :
    copyN input count offset (produced ++ tail) produced.length =
      .ok (produced ++ (input.drop offset).take count ++ tail.drop count) := by
  induction count generalizing offset produced tail with
  | zero => simp [copyN]
  | succ count ih =>
      obtain ⟨a, tail, rfl⟩ := List.exists_cons_of_length_pos (by omega : 0 < tail.length)
      have hlt : offset < input.length := by omega
      have hnext := @ih (produced ++ [input[offset]]) (offset + 1) tail (by omega)
        (by simpa using hroom)
      rw [List.length_append, List.length_singleton] at hnext
      rw [copyN, byteAt_eq_ok hlt, ok_bind, setByteAt_eq_ok (by simp), ok_bind,
        set_length_append, hnext, List.drop_eq_getElem_cons hlt, List.take_succ_cons,
        List.drop_succ_cons]
      simp

theorem copyWithin_eq_ok {copyOffset copyLength : ℕ} {tail : List UInt8} (hpos : 0 < copyOffset)
    (hback : copyOffset ≤ produced.length) (hroom : copyLength ≤ tail.length) :
    copyWithin copyOffset copyLength (produced ++ tail) produced.length =
      .ok (copyBack copyOffset copyLength produced ++ tail.drop copyLength) := by
  induction copyLength generalizing produced tail with
  | zero => simp [copyWithin, copyBack]
  | succ copyLength ih =>
      obtain ⟨a, tail, rfl⟩ := List.exists_cons_of_length_pos (by omega : 0 < tail.length)
      have hsource : produced.length - copyOffset < produced.length := by omega
      have hbyte : byteAt (produced ++ a :: tail) (produced.length - copyOffset) =
          .ok (produced.getD (produced.length - copyOffset) default) := by
        rw [byteAt, List.getElem?_append_left hsource, List.getElem?_eq_getElem hsource,
          List.getD_eq_getElem _ _ hsource]
      have hnext := @ih (produced ++ [produced.getD (produced.length - copyOffset) default]) tail
        (by simp; omega) (by simpa using hroom)
      rw [List.length_append, List.length_singleton] at hnext
      rw [copyWithin, difference_eq_ok hback, ok_bind, hbyte, ok_bind, setByteAt_eq_ok (by simp),
        ok_bind, set_length_append, hnext, copyBack, List.drop_succ_cons]

/-! ## The elements -/

variable {declaredLength : ℕ}

/-- The buffers hold what the reader has produced, and unwritten bytes after it. -/
structure Holds (input : List UInt8) (declaredLength : ℕ) (s : State)
    (p : List UInt8 × Cursor) : Prop where
  cursor : p.2 = cursorAt input s.inputOffset
  offset_le : s.inputOffset ≤ input.length
  outputOffset : s.outputOffset = p.1.length
  output : ∃ tail, s.output = p.1 ++ tail
  length : s.output.length = declaredLength

theorem Holds.produced_le {s : State} {p : List UInt8 × Cursor}
    (h : Holds input declaredLength s p) : p.1.length ≤ declaredLength := by
  obtain ⟨tail, htail⟩ := h.output
  rw [← h.length, htail, List.length_append]
  omega

theorem lockstep_readLiteralLength {tag : ℕ} (htag : tag < 256) (hoffset : offset ≤ input.length) :
    Lockstep IsCodecError (AtCursor input) (readLiteralLength input (tag >>> 2) offset)
      (SnappyCodec.readLiteralLength (tag >>> 2) (cursorAt input offset)) := by
  have hencoded : tag >>> 2 < 64 := by
    rw [Nat.shiftRight_eq_div_pow]
    omega
  rw [readLiteralLength, SnappyCodec.readLiteralLength]
  by_cases hshort : tag >>> 2 < 60
  · rw [if_pos hshort, if_pos hshort]
    exact .pure ⟨rfl, rfl, hoffset⟩
  · rw [if_neg hshort, if_neg hshort]
    refine (lockstep_readLittleEndian _ (by omega) hoffset).bind_reader ?_
    rintro ⟨value, offset'⟩ value' c' ⟨hvalue, hc', hle⟩
    obtain rfl : value = value' := hvalue
    obtain rfl : c' = cursorAt input offset' := hc'
    exact .pure ⟨rfl, rfl, hle⟩

theorem lockstep_readLiteral {tag : ℕ} {s : State} (htag : tag < 256)
    (h : Holds input declaredLength s (produced, cursorAt input s.inputOffset)) :
    Lockstep IsCodecError (Holds input declaredLength) (readLiteral input tag s)
      (SnappyCodec.readLiteral declaredLength produced tag (cursorAt input s.inputOffset)) := by
  refine (lockstep_readLiteralLength htag h.offset_le).bind_reader ?_
  rintro ⟨length, offset⟩ length' c' ⟨hlength, hc', hle⟩
  obtain rfl : length = length' := hlength
  obtain rfl : c' = cursorAt input offset := hc'
  have hrest : (cursorAt input offset).rest.length = input.length - offset := by
    rw [cursorAt, List.length_drop]
  have hproduced : produced.length ≤ declaredLength := h.produced_le
  obtain ⟨tail, htail⟩ : ∃ tail, s.output = produced ++ tail := h.output
  have hroom : s.outputOffset = produced.length := h.outputOffset
  have htotal : produced.length + tail.length = declaredLength := by
    rw [← h.length, htail, List.length_append]
  refine .bind_left (difference_eq_ok hle) ?_
  rw [Reader.remaining_run, hrest]
  by_cases hshort : input.length - offset < length
  · rw [if_pos hshort, if_pos hshort]
    exact .throw rfl
  rw [if_neg hshort, if_neg hshort, h.length, hroom, difference_eq_ok hproduced, ok_bind]
  by_cases hfull : declaredLength - produced.length < length
  · rw [if_pos hfull, if_pos hfull]
    exact .throw rfl
  have htake : Reader.take length (fun _ ↦ "snappy literal is truncated") (cursorAt input offset) =
      .ok ((input.drop offset).take length, cursorAt input (offset + length)) := by
    rw [Reader.take, if_pos (by omega), cursorAt, cursorAt, List.drop_drop]
  rw [if_neg hfull, if_neg hfull, htail, copyN_eq_ok (by omega) (by omega), ok_bind,
    Reader.bind_run htake]
  refine .pure ⟨rfl, by simp only; omega, ?_, ⟨_, rfl⟩, ?_⟩
  · simp only [List.length_append, List.length_take, List.length_drop]
    omega
  · simp only [List.length_append, List.length_take, List.length_drop]
    omega

theorem lockstep_applyCopy {copyLength copyOffset : ℕ} {s : State}
    (h : Holds input declaredLength s (produced, cursorAt input s.inputOffset)) :
    Lockstep IsCodecError (Holds input declaredLength) (applyCopy copyLength copyOffset s)
      ((liftM (SnappyCodec.applyCopy declaredLength produced copyLength copyOffset) : Reader _)
        (cursorAt input s.inputOffset)) := by
  have hproduced : produced.length ≤ declaredLength := h.produced_le
  obtain ⟨tail, htail⟩ : ∃ tail, s.output = produced ++ tail := h.output
  have hroom : s.outputOffset = produced.length := h.outputOffset
  have htotal : produced.length + tail.length = declaredLength := by
    rw [← h.length, htail, List.length_append]
  rw [applyCopy, SnappyCodec.applyCopy, hroom]
  by_cases hoffset : copyOffset = 0 ∨ produced.length < copyOffset
  · rw [if_pos hoffset, if_pos hoffset]
    exact .throw rfl
  rw [if_neg hoffset, if_neg hoffset, h.length, difference_eq_ok hproduced, ok_bind]
  by_cases hfull : declaredLength - produced.length < copyLength
  · rw [if_pos hfull, if_pos hfull]
    exact .throw rfl
  rw [if_neg hfull, if_neg hfull, htail, copyWithin_eq_ok (by omega) (by omega) (by omega), ok_bind]
  refine .pure ⟨rfl, h.offset_le, ?_, ⟨_, rfl⟩, ?_⟩
  · simp
  · simp only [List.length_append, length_copyBack, List.length_drop]
    omega

theorem lockstep_readCopy {byteCount copyLength offsetHigh : ℕ} (message : String) {s : State}
    (hcount : byteCount ≤ 4)
    (h : Holds input declaredLength s (produced, cursorAt input s.inputOffset)) :
    Lockstep IsCodecError (Holds input declaredLength)
      (readCopy input byteCount copyLength offsetHigh message s)
      ((do
        let offsetLow ← SnappyCodec.readLittleEndian byteCount message
        SnappyCodec.applyCopy declaredLength produced copyLength (offsetHigh ||| offsetLow) :
          Reader (List UInt8)) (cursorAt input s.inputOffset)) := by
  refine (lockstep_readLittleEndian message hcount h.offset_le).bind_reader ?_
  rintro ⟨offsetLow, inputOffset⟩ offsetLow' c' ⟨hlow, hc', hle⟩
  obtain rfl : offsetLow = offsetLow' := hlow
  obtain rfl : c' = cursorAt input inputOffset := hc'
  exact @lockstep_applyCopy _ _ _ _ _ { s with inputOffset }
    ⟨rfl, hle, h.outputOffset, h.output, h.length⟩

theorem lockstep_readElement {s : State} (hlt : s.inputOffset < input.length)
    (h : Holds input declaredLength s (produced, cursorAt input s.inputOffset)) :
    Lockstep IsCodecError (Holds input declaredLength) (readElement input s)
      (SnappyCodec.readElement declaredLength produced (cursorAt input s.inputOffset)) := by
  have hbyte := (input[s.inputOffset]).toNat_lt
  have hs : Holds input declaredLength { s with inputOffset := s.inputOffset + 1 }
      (produced, cursorAt input (s.inputOffset + 1)) :=
    ⟨rfl, hlt, h.outputOffset, h.output, h.length⟩
  rw [readElement, byteAt_eq_ok hlt, ok_bind, SnappyCodec.readElement,
    Reader.bind_run (byte_cursorAt hlt)]
  dsimp only
  by_cases h0 : input[s.inputOffset].toNat &&& 0x03 = 0
  · rw [if_pos h0, if_pos h0]
    exact lockstep_readLiteral hbyte hs
  rw [if_neg h0, if_neg h0]
  by_cases h1 : input[s.inputOffset].toNat &&& 0x03 = 1
  · rw [if_pos h1, if_pos h1]
    exact lockstep_readCopy _ (by omega) hs
  rw [if_neg h1, if_neg h1]
  by_cases h2 : input[s.inputOffset].toNat &&& 0x03 = 2
  · rw [if_pos h2, if_pos h2]
    simpa only [Nat.zero_or] using
      @lockstep_readCopy input produced declaredLength 2 _ 0 _ _ (by omega) hs
  · rw [if_neg h2, if_neg h2]
    simpa only [Nat.zero_or] using
      @lockstep_readCopy input produced declaredLength 4 _ 0 _ _ (by omega) hs

theorem lockstep_readElements (turns : ℕ) {s : State}
    (h : Holds input declaredLength s (produced, cursorAt input s.inputOffset)) :
    Lockstep IsCodecError (Holds input declaredLength) (readElements input turns s)
      (SnappyCodec.readElements declaredLength turns produced (cursorAt input s.inputOffset)) := by
  induction turns generalizing s produced with
  | zero => exact .pure h
  | succ turns ih =>
      have hrest : (cursorAt input s.inputOffset).rest.length = input.length - s.inputOffset := by
        rw [cursorAt, List.length_drop]
      have hle := h.offset_le
      have hiff : (input.length ≤ s.inputOffset ∨ s.output.length ≤ s.outputOffset) ↔
          (input.length - s.inputOffset = 0 ∨ declaredLength ≤ produced.length) := by
        rw [h.length, h.outputOffset]
        simp only
        omega
      rw [readElements, SnappyCodec.readElements, Reader.remaining_run, hrest]
      by_cases hstop : input.length ≤ s.inputOffset ∨ s.output.length ≤ s.outputOffset
      · rw [if_pos hstop, if_pos (hiff.mp hstop)]
        exact .pure h
      · rw [if_neg hstop, if_neg (mt hiff.mpr hstop)]
        refine (lockstep_readElement (by omega) h).bind_reader ?_
        rintro s' produced' c' hs'
        obtain rfl : c' = cursorAt input s'.inputOffset := hs'.cursor
        exact ih hs'

/-- The decompressor on its buffers and the reader of elements agree on every
input: no access is out of range. -/
theorem lockstep_decompress (input : List UInt8) :
    Lockstep IsCodecError Eq (decompress input) (SnappyCodec.decompress input) := by
  suffices h : Lockstep IsCodecError (fun (out : List UInt8) (p : List UInt8 × Cursor) ↦ out = p.1)
      (decompress input) (decompressBlock (Cursor.start input)) by
    cases h with
    | ok hx hy hab => exact .ok hx (by rw [SnappyCodec.decompress, hy]; rfl) hab
    | error hx hy he => exact .error hx (by rw [SnappyCodec.decompress, hy]; rfl) he
  refine (lockstep_readVarUInt32 input).bind_reader ?_
  rintro ⟨declaredLength, inputOffset⟩ declaredLength' c' ⟨hdeclared, hc', hle⟩
  obtain rfl : declaredLength = declaredLength' := hdeclared
  obtain rfl : c' = cursorAt input inputOffset := hc'
  have hrest : (cursorAt input inputOffset).rest.length = input.length - inputOffset := by
    rw [cursorAt, List.length_drop]
  have hstart : Holds input declaredLength ⟨inputOffset, List.replicate declaredLength 0, 0⟩
      ([], cursorAt input inputOffset) := ⟨rfl, hle, rfl, ⟨_, rfl⟩, by simp⟩
  rw [Reader.remaining_run, hrest]
  refine (lockstep_readElements (input.length - inputOffset) hstart).bind_reader ?_
  intro s produced c' h
  obtain rfl : c' = cursorAt input s.inputOffset := h.cursor
  have hleft : (cursorAt input s.inputOffset).rest.length = input.length - s.inputOffset := by
    rw [cursorAt, List.length_drop]
  have hin := h.offset_le
  obtain ⟨tail, htail⟩ : ∃ tail, s.output = produced ++ tail := h.output
  have hlength := h.length
  have hoffset : s.outputOffset = produced.length := h.outputOffset
  rw [hlength, hoffset]
  by_cases hdone : produced.length ≠ declaredLength
  · rw [if_pos hdone, if_pos hdone]
    exact .throw rfl
  rw [if_neg hdone, if_neg hdone, Reader.remaining_run, hleft]
  by_cases hmore : s.inputOffset ≠ input.length
  · rw [if_pos hmore, if_pos (by omega)]
    exact .throw rfl
  · rw [if_neg hmore, if_neg (by omega)]
    have hnil : tail = [] := by
      rw [← List.length_eq_zero_iff]
      rw [htail, List.length_append] at hlength
      omega
    exact .pure (by rw [htail, hnil, List.append_nil])

end SnappyBuffers

end BedrockProtocol
