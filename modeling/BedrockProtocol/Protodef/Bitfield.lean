import BedrockProtocol.Lib.BitString
import BedrockProtocol.Protodef.ProtoDefContext
import BedrockProtocol.Protodef.ProtoDefNumber
import BedrockProtocol.Protodef.ProtoDefReader
import BedrockProtocol.Protodef.SchemaText

/-!
# Bit fields

`encodeBitfield` and `decodeBitfield`: parts of one to thirty-one bits one
after the other, the first one in the highest bits, the last byte filled up
with zeros.  The encoder collects up to eight bits and writes a byte when it
has them; the decoder takes what a byte still has and goes on with the next.
-/

namespace BedrockProtocol

namespace Bitfield

open ProtoDefValue SchemaText

/-! ## The encoder -/

/-- The bytes written and the bits collected for the next one. -/
structure BitWriter where
  data : List UInt8 := []
  toWrite : ℕ := 0
  bits : ℕ := 0

/-- `count` bits below those already collected, and a byte once there are eight. -/
def collect (count piece : ℕ) (w : BitWriter) : BitWriter :=
  let toWrite := ((w.toWrite <<< count) % 2 ^ 32) ||| piece
  let bits := w.bits + count
  if bits = 8 then { data := w.data ++ [UInt8.ofNat toWrite] }
  else { w with toWrite := toWrite, bits := bits }

/-- The loop over the `size` low bits of a word; every turn takes at least one of them. -/
def writeBits (val : ℕ) : ℕ → ℕ → BitWriter → BitWriter
  | 0, _, w => w
  | turns + 1, size, w =>
      if size = 0 then w
      else
        let count := min (8 - w.bits) size
        let mask := (1 <<< count) - 1
        writeBits val turns (size - count) (collect count ((val >>> (size - count)) &&& mask) w)

def minValue (part : BitfieldPart) : ℤ :=
  if part.signedValue then -2 ^ (part.size - 1).toNat else 0

def maxValue (part : BitfieldPart) : ℤ :=
  if part.signedValue then 2 ^ (part.size - 1).toNat - 1 else 2 ^ part.size.toNat - 1

/-- The word whose low bits stand for a number; a negative one is moved up by `1 << size`. -/
def partWord (part : BitfieldPart) (raw : ℤ) : ℕ :=
  if part.signedValue ∧ raw < 0 then toUnsigned 32 (2 ^ part.size.toNat + raw)
  else toUnsigned 32 raw

/-- The last byte, filled up with zeros. -/
def flush (w : BitWriter) : List UInt8 :=
  if w.bits = 0 then w.data else w.data ++ [UInt8.ofNat (w.toWrite <<< (8 - w.bits))]

section Encoding

variable (undefinedCast : UInt64 → UInt64)

/-- The number that is written for a part. -/
def partValue (fields : List (Text × ProtoDefValue)) (part : BitfieldPart) : Except String ℤ :=
  match find part.name fields with
  | none => .error ("bitfield missing field: " ++ shown part.name)
  | some field => do
      let raw ← asInt undefinedCast field
      if part.size ≤ 0 ∨ 31 < part.size then
        .error ("bitfield unsupported field size: " ++ toString part.size)
      else if raw < minValue part ∨ maxValue part < raw then
        .error ("bitfield field out of range: " ++ shown part.name)
      else .ok raw

def writePart (fields : List (Text × ProtoDefValue)) (w : BitWriter) (part : BitfieldPart) :
    Except String BitWriter := do
  let raw ← partValue undefinedCast fields part
  .ok (writeBits (partWord part raw) part.size.toNat part.size.toNat w)

def encodeBitfield (bitfieldJson : Text) (value : ProtoDefValue) : Except String (List UInt8) :=
  match value with
  | .object fields => do
      let parts ← readBitfieldParts bitfieldJson
      let w ← parts.foldlM (writePart undefinedCast fields) {}
      .ok (flush w)
  | _ => .error "bitfield encode expects object"

end Encoding

/-! ## The decoder -/

/-- The last byte read and how many of its low bits are still to be read. -/
structure BitReader where
  currentByte : UInt8 := 0
  remainingBits : ℕ := 0

/-- A byte with bits left, the next one if the last one has none. -/
def refill (r : BitReader) : Reader BitReader :=
  if r.remainingBits = 0 then do
    let b ← ProtoDefReader.u8
    pure ⟨b, 8⟩
  else pure r

/-- The loop over the bits of one part; every turn reads at least one. -/
def readBits : ℕ → ℕ → ℕ → BitReader → Reader (ℕ × BitReader)
  | 0, _, value, r => pure (value, r)
  | turns + 1, currentSize, value, r =>
      if currentSize = 0 then pure (value, r)
      else do
        let r ← refill r
        let bitsToRead := min currentSize r.remainingBits
        let mask := (1 <<< r.remainingBits) - 1
        let value := (value <<< bitsToRead) |||
          (((r.currentByte.toNat &&& mask) >>> (r.remainingBits - bitsToRead)) &&&
            ((1 <<< bitsToRead) - 1))
        readBits turns (currentSize - bitsToRead) value
          { r with remainingBits := r.remainingBits - bitsToRead }

/-- The number that the bits of a part stand for. -/
def partNumber (part : BitfieldPart) (value : ℕ) : ℤ :=
  if part.signedValue ∧ 2 ^ (part.size - 1).toNat ≤ value then value - 2 ^ part.size.toNat
  else value

def readPart (collectFields : Bool) (path : Text) (state : BitReader × Decoded)
    (part : BitfieldPart) : Reader (BitReader × Decoded) := do
  let start ← Reader.offset
  if part.size ≤ 0 ∨ 31 < part.size then
    throw ("bitfield unsupported field size: " ++ toString part.size)
  else
    let (value, r) ← readBits part.size.toNat part.size.toNat 0 state.1
    let offset ← Reader.offset
    let field : ProtoDefField :=
      { path := childPath path part.name, type := txt "bitfield",
        value := decimalInt (partNumber part value), offset := start, size := offset - start }
    pure (r, state.2.record collectFields field)

def decodeBitfield (collectFields : Bool) (bitfieldJson path : Text) (decoded : Decoded) :
    Reader Decoded := do
  let parts ← readBitfieldParts bitfieldJson
  let (_, decoded) ← parts.foldlM (readPart collectFields path) ({}, decoded)
  pure decoded

/-! ## What the writer has written -/

open BitString

namespace BitWriter

/-- Fewer than eight bits are collected, and nothing else is. -/
def Sound (w : BitWriter) : Prop := w.bits < 8 ∧ w.toWrite < 2 ^ w.bits

/-- All bits so far. -/
def written (w : BitWriter) : BitString := ofBytes w.data ++ low w.bits w.toWrite

end BitWriter

theorem and_mask (value n : ℕ) : value &&& ((1 <<< n) - 1) = value % 2 ^ n := by
  rw [Nat.one_shiftLeft, Nat.and_two_pow_sub_one_eq_mod]

/-- One turn appends its bits. -/
theorem written_collect {w : BitWriter} (hw : w.Sound) {count : ℕ} (hcount : w.bits + count ≤ 8)
    (value : ℕ) :
    (collect count (value % 2 ^ count) w).Sound ∧
      (collect count (value % 2 ^ count) w).written = w.written ++ low count value := by
  obtain ⟨hbits, htoWrite⟩ := hw
  have hbound : w.toWrite * 2 ^ count < 2 ^ (w.bits + count) := by
    rw [pow_add]
    exact Nat.mul_lt_mul_of_pos_right htoWrite (Nat.two_pow_pos count)
  have hbyte : (2 : ℕ) ^ (w.bits + count) ≤ 2 ^ 8 := Nat.pow_le_pow_right (by omega) hcount
  have hshift : (w.toWrite <<< count) % 2 ^ 32 = w.toWrite <<< count := by
    rw [Nat.shiftLeft_eq]
    exact Nat.mod_eq_of_lt (by omega)
  have hlow : low (w.bits + count) ((w.toWrite <<< count) ||| (value % 2 ^ count)) =
      low w.bits w.toWrite ++ low count value := low_shiftLeft_or _ _ _ _
  rw [collect, hshift]
  split
  · rename_i hfull
    rw [hfull] at hlow
    refine ⟨⟨Nat.succ_pos 7, Nat.one_pos⟩, ?_⟩
    rw [BitWriter.written, low_zero, append_empty, ofBytes_append, ofBytes_singleton, byte_ofNat,
      hlow, ← append_assoc]
    rfl
  · rename_i hfull
    refine ⟨⟨by dsimp only; omega, ?_⟩, ?_⟩
    · dsimp only
      rw [Nat.shiftLeft_eq]
      refine Nat.or_lt_two_pow hbound ((Nat.mod_lt _ (Nat.two_pow_pos count)).trans_le ?_)
      exact Nat.pow_le_pow_right (by omega) (by omega)
    · rw [BitWriter.written, hlow, ← append_assoc]
      rfl

/-- The loop appends the low bits of the word. -/
theorem written_writeBits (val : ℕ) {turns size : ℕ} (hturns : size ≤ turns) {w : BitWriter}
    (hw : w.Sound) :
    (writeBits val turns size w).Sound ∧
      (writeBits val turns size w).written = w.written ++ low size val := by
  induction turns generalizing size w with
  | zero =>
      obtain rfl : size = 0 := by omega
      exact ⟨hw, by rw [low_zero, append_empty]; rfl⟩
  | succ turns ih =>
      by_cases hsize : size = 0
      · rw [writeBits, if_pos hsize, hsize, low_zero, append_empty]
        exact ⟨hw, rfl⟩
      obtain ⟨hbits, htoWrite⟩ := hw
      rw [writeBits, if_neg hsize]
      obtain ⟨count, hcount⟩ : ∃ count, count = min (8 - w.bits) size := ⟨_, rfl⟩
      rw [← hcount]
      have hroom : w.bits + count ≤ 8 := by omega
      have hstep := written_collect ⟨hbits, htoWrite⟩ hroom (val / 2 ^ (size - count))
      have hturns : size - count ≤ turns := by omega
      have hrest := ih hturns hstep.1
      have hsplit : low size val =
          low count (val / 2 ^ (size - count)) ++ low (size - count) val := by
        rw [← low_add]
        congr 1
        omega
      dsimp only
      rw [and_mask, Nat.shiftRight_eq_div_pow, hsplit, ← append_assoc, ← hstep.2]
      exact hrest

/-- The last byte is filled up with zeros. -/
theorem ofBytes_flush {w : BitWriter} (hw : w.Sound) :
    ofBytes (flush w) = w.written ++ low ((8 - w.bits) % 8) 0 := by
  obtain ⟨hbits, htoWrite⟩ := hw
  rw [flush, BitWriter.written]
  split
  · rename_i hzero
    rw [hzero, low_zero, low_zero, append_empty, append_empty]
  · rename_i hzero
    have hpad : (8 - w.bits) % 8 = 8 - w.bits := by omega
    have hsplit := low_shiftLeft_or w.bits (8 - w.bits) w.toWrite 0
    rw [Nat.zero_mod, Nat.or_zero, show w.bits + (8 - w.bits) = 8 by omega] at hsplit
    rw [ofBytes_append, ofBytes_singleton, byte_ofNat, hsplit, hpad, append_assoc]

/-! ## What the reader has left -/

namespace BitReader

/-- The bits of the last byte that are still to be read. -/
def left (r : BitReader) : BitString := low r.remainingBits r.currentByte.toNat

end BitReader

/-- After a byte was fetched if necessary, the same bits are left and one of them is in it. -/
theorem refill_run {r : BitReader} (hr : r.remainingBits ≤ 8) {offset : ℕ} {rest : List UInt8}
    (hleft : 0 < (r.left ++ ofBytes rest).size) :
    ∃ r' used rest', refill r ⟨offset, rest⟩ = .ok (r', ⟨offset + used.length, rest'⟩) ∧
      rest = used ++ rest' ∧ r'.left ++ ofBytes rest' = r.left ++ ofBytes rest ∧
      0 < r'.remainingBits ∧ r'.remainingBits ≤ 8 := by
  by_cases hzero : r.remainingBits = 0
  · cases rest with
    | nil =>
        rw [size_append, BitReader.left, size_low, size_ofBytes, hzero] at hleft
        exact absurd hleft (by simp)
    | cons b rest =>
        refine ⟨⟨b, 8⟩, [b], rest, ?_, rfl, ?_, Nat.succ_pos 7, le_rfl⟩
        · rw [refill, if_pos hzero]
          rfl
        · have hbyte : BitReader.left ⟨b, 8⟩ = byte b := low_byte b
          rw [hbyte, BitReader.left, hzero, low_zero, empty_append]
          rfl
  · refine ⟨r, [], rest, ?_, rfl, rfl, by omega, hr⟩
    rw [refill, if_neg hzero]
    rfl

/-- The bits a turn cuts out of the byte. -/
theorem cut_bits (value : ℕ) {n width : ℕ} (hn : n ≤ width) :
    ((value &&& ((1 <<< width) - 1)) >>> (width - n)) &&& ((1 <<< n) - 1) =
      value / 2 ^ (width - n) % 2 ^ n := by
  have hpow : 2 ^ width = 2 ^ (width - n) * 2 ^ n := by
    rw [← pow_add]
    congr 1
    omega
  rw [and_mask, and_mask, Nat.shiftRight_eq_div_pow, hpow, Nat.mod_mul_right_div_self,
    Nat.mod_mod]

/-- The loop takes its bits off the front. -/
theorem readBits_run {turns size : ℕ} (hturns : size ≤ turns) {value : ℕ} {r : BitReader}
    (hr : r.remainingBits < 8) {offset : ℕ} {rest : List UInt8} {front : ℕ} {back : BitString}
    (hbits : r.left ++ ofBytes rest = low size front ++ back) :
    ∃ r' used rest', readBits turns size value r ⟨offset, rest⟩ =
        .ok ((value * 2 ^ size + front % 2 ^ size, r'), ⟨offset + used.length, rest'⟩) ∧
      rest = used ++ rest' ∧ r'.left ++ ofBytes rest' = back ∧ r'.remainingBits < 8 := by
  induction turns generalizing size value r offset rest with
  | zero =>
      obtain rfl : size = 0 := by omega
      rw [low_zero, empty_append] at hbits
      refine ⟨r, [], rest, ?_, rfl, hbits, hr⟩
      rw [pow_zero, Nat.mod_one, Nat.mul_one]
      rfl
  | succ turns ih =>
      by_cases hsize : size = 0
      · subst hsize
        rw [low_zero, empty_append] at hbits
        refine ⟨r, [], rest, ?_, rfl, hbits, hr⟩
        rw [readBits, if_pos rfl, pow_zero, Nat.mod_one, Nat.mul_one]
        rfl
      have hpos : 0 < (r.left ++ ofBytes rest).size := by
        rw [hbits, size_append, size_low]
        omega
      obtain ⟨r₁, used₁, rest₁, hrefill, rfl, hsame, hpos₁, hle₁⟩ :=
        refill_run (by omega) hpos
      obtain ⟨n, hn⟩ : ∃ n, n = min size r₁.remainingBits := ⟨_, rfl⟩
      have hwidth : r₁.left = low n (r₁.currentByte.toNat / 2 ^ (r₁.remainingBits - n)) ++
          low (r₁.remainingBits - n) r₁.currentByte.toNat := by
        rw [← low_add, BitReader.left]
        congr 1
        omega
      have hfront : low size front = low n (front / 2 ^ (size - n)) ++ low (size - n) front := by
        rw [← low_add]
        congr 1
        omega
      rw [← hsame, hwidth, hfront, append_assoc, append_assoc] at hbits
      obtain ⟨hpiece, hrest⟩ := append_inj hbits rfl
      have hcut := congrArg BitString.value hpiece
      have hvalue := congrArg BitString.value hfront
      change r₁.currentByte.toNat / 2 ^ (r₁.remainingBits - n) % 2 ^ n =
        front / 2 ^ (size - n) % 2 ^ n at hcut
      change front % 2 ^ size = front / 2 ^ (size - n) % 2 ^ n * 2 ^ (size - n) +
        front % 2 ^ (size - n) at hvalue
      obtain ⟨r', used, rest', hrun, rfl, hback, hr'⟩ :=
        @ih (size - n) (by omega) ((value <<< n) ||| (front / 2 ^ (size - n) % 2 ^ n))
          { r₁ with remainingBits := r₁.remainingBits - n } (by dsimp only; omega)
          (offset + used₁.length) rest₁ hrest
      refine ⟨r', used₁ ++ used, rest', ?_, by rw [List.append_assoc], hback, hr'⟩
      rw [readBits, if_neg hsize, Reader.bind_run hrefill, ← hn]
      rw [cut_bits _ (by omega), hcut, hrun, List.length_append, Nat.add_assoc]
      have hlt : front / 2 ^ (size - n) % 2 ^ n < 2 ^ n := Nat.mod_lt _ (Nat.two_pow_pos n)
      have hjoin : (value <<< n) ||| (front / 2 ^ (size - n) % 2 ^ n) =
          value * 2 ^ n + front / 2 ^ (size - n) % 2 ^ n := by
        rw [Nat.shiftLeft_eq, Nat.mul_comm, Nat.two_pow_add_eq_or_of_lt hlt]
      have hpow : 2 ^ size = 2 ^ n * 2 ^ (size - n) := by
        rw [← pow_add]
        congr 1
        omega
      have htotal : (value * 2 ^ n + front / 2 ^ (size - n) % 2 ^ n) * 2 ^ (size - n) +
          front % 2 ^ (size - n) = value * 2 ^ size + front % 2 ^ size := by
        rw [hvalue, hpow]
        ring
      rw [hjoin, htotal]

/-! ## All parts -/

/-- A part of a size that the code supports. -/
def Supported (part : BitfieldPart) : Prop := 1 ≤ part.size ∧ part.size ≤ 31

instance (part : BitfieldPart) : Decidable (Supported part) :=
  inferInstanceAs (Decidable (_ ∧ _))

/-- A number that the part can hold. -/
def InPart (part : BitfieldPart) (raw : ℤ) : Prop := minValue part ≤ raw ∧ raw ≤ maxValue part

instance (part : BitfieldPart) (raw : ℤ) : Decidable (InPart part raw) :=
  inferInstanceAs (Decidable (_ ∧ _))

/-- The word of a number has the bits of the part and stands for the number. -/
theorem partNumber_partWord {part : BitfieldPart} (hpart : Supported part) {raw : ℤ}
    (hraw : InPart part raw) :
    partWord part raw < 2 ^ part.size.toNat ∧ partNumber part (partWord part raw) = raw := by
  obtain ⟨hlow, hhigh⟩ := hpart
  obtain ⟨hmin, hmax⟩ := hraw
  obtain ⟨k, hk⟩ : ∃ k, part.size.toNat = k + 1 := ⟨part.size.toNat - 1, by omega⟩
  have hpred : (part.size - 1).toNat = k := by omega
  have hpow : (2 : ℤ) ^ (k + 1) = 2 * 2 ^ k := pow_succ' 2 k
  have hpowNat : 2 ^ (k + 1) = 2 * 2 ^ k := pow_succ' 2 k
  have hcast : ((2 ^ k : ℕ) : ℤ) = 2 ^ k := by push_cast; rfl
  have hbound : (2 : ℤ) ^ k ≤ 2 ^ 30 := pow_le_pow_right₀ (by norm_num) (by omega)
  rw [minValue, hpred] at hmin
  rw [maxValue, hpred, hk] at hmax
  rw [partWord, partNumber, hpred, hk]
  cases hsigned : part.signedValue with
  | false =>
      rw [hsigned, if_neg Bool.false_ne_true] at hmin hmax
      have hword := toUnsigned_of_nonneg (w := 32) hmin (by omega)
      rw [if_neg (fun h ↦ Bool.false_ne_true h.1), if_neg (fun h ↦ Bool.false_ne_true h.1)]
      exact ⟨by omega, hword⟩
  | true =>
      rw [hsigned, if_pos rfl] at hmin hmax
      by_cases hneg : raw < 0
      · have hword := toUnsigned_of_nonneg (w := 32) (z := 2 ^ (k + 1) + raw) (by omega) (by omega)
        rw [if_pos ⟨rfl, hneg⟩, if_pos ⟨rfl, by omega⟩]
        exact ⟨by omega, by omega⟩
      · have hword := toUnsigned_of_nonneg (w := 32) (z := raw) (by omega) (by omega)
        rw [if_neg (fun h ↦ hneg h.2), if_neg (by omega)]
        exact ⟨by omega, hword⟩

/-- The bits of all parts. -/
def packed (raw : BitfieldPart → ℤ) : List BitfieldPart → BitString
  | [] => empty
  | part :: parts => low part.size.toNat (partWord part (raw part)) ++ packed raw parts

def totalSize (parts : List BitfieldPart) : ℕ := (parts.map fun part ↦ part.size.toNat).sum

@[simp] theorem size_packed (raw : BitfieldPart → ℤ) (parts : List BitfieldPart) :
    (packed raw parts).size = totalSize parts := by
  induction parts with
  | nil => rfl
  | cons part parts ih =>
      rw [packed, size_append, size_low, ih, totalSize, totalSize, List.map_cons, List.sum_cons]

section Parts

variable {undefinedCast : UInt64 → UInt64} {fields : List (Text × ProtoDefValue)}
  {raw : BitfieldPart → ℤ} {parts : List BitfieldPart}

/-- A run of the encoder appends the bits of all parts. -/
theorem foldlM_writePart
    (hvalues : ∀ part ∈ parts, partValue undefinedCast fields part = .ok (raw part))
    {w : BitWriter} (hw : w.Sound) :
    ∃ w', parts.foldlM (writePart undefinedCast fields) w = .ok w' ∧ w'.Sound ∧
      w'.written = w.written ++ packed raw parts := by
  induction parts generalizing w with
  | nil => exact ⟨w, rfl, hw, (append_empty _).symm⟩
  | cons part parts ih =>
      obtain ⟨hsound, hwritten⟩ :=
        written_writeBits (partWord part (raw part)) (le_refl part.size.toNat) hw
      obtain ⟨w', hrun, hw', hall⟩ := ih (fun p hp ↦ hvalues p (by simp [hp])) hsound
      refine ⟨w', ?_, hw', ?_⟩
      · have hpart : writePart undefinedCast fields w part =
            .ok (writeBits (partWord part (raw part)) part.size.toNat part.size.toNat w) := by
          rw [writePart, hvalues part (by simp)]
          rfl
        rw [List.foldlM_cons, hpart]
        exact hrun
      · rw [hall, hwritten, packed, append_assoc]

/-- A part that has no number to write stops the encoder. -/
theorem foldlM_writePart_error {part : BitfieldPart} (hpart : part ∈ parts)
    (hvalue : ∀ raw, partValue undefinedCast fields part ≠ .ok raw) (w : BitWriter) :
    ∃ e, parts.foldlM (writePart undefinedCast fields) w = .error e := by
  induction parts generalizing w with
  | nil => cases hpart
  | cons first parts ih =>
      rw [List.foldlM_cons]
      cases hfirst : writePart undefinedCast fields w first with
      | error e => exact ⟨e, rfl⟩
      | ok w' =>
          rcases List.mem_cons.mp hpart with rfl | hmem
          · obtain ⟨raw, hraw, -⟩ := bind_eq_ok.mp hfirst
            exact (hvalue raw hraw).elim
          · exact ih hmem w'

/-- The text that a part is decoded to. -/
def partText (path : Text) (raw : BitfieldPart → ℤ) (part : BitfieldPart) : Text × Text :=
  (childPath path part.name, decimalInt (raw part))

/-- A run of the decoder takes the bits of all parts off the front. -/
theorem foldlM_readPart (hparts : ∀ part ∈ parts, Supported part)
    (hraw : ∀ part ∈ parts, InPart part (raw part)) (path : Text) {r : BitReader}
    (hr : r.remainingBits < 8) (decoded : Decoded) {offset : ℕ} {rest : List UInt8}
    {back : BitString} (hbits : r.left ++ ofBytes rest = packed raw parts ++ back) :
    ∃ r' decoded' used rest' new,
      parts.foldlM (readPart true path) (r, decoded) ⟨offset, rest⟩ =
        .ok ((r', decoded'), ⟨offset + used.length, rest'⟩) ∧
      rest = used ++ rest' ∧ r'.left ++ ofBytes rest' = back ∧ r'.remainingBits < 8 ∧
      decoded'.out = decoded.out ++ new ∧
      new.map (fun field ↦ (field.path, field.value)) = parts.map (partText path raw) := by
  induction parts generalizing r decoded offset rest with
  | nil =>
      rw [packed, empty_append] at hbits
      exact ⟨r, decoded, [], rest, [], rfl, rfl, hbits, hr, (List.append_nil _).symm, rfl⟩
  | cons part parts ih =>
      obtain ⟨hlow, hhigh⟩ := hparts part (by simp)
      obtain ⟨hword, hnumber⟩ := partNumber_partWord ⟨hlow, hhigh⟩ (hraw part (by simp))
      rw [packed, append_assoc] at hbits
      obtain ⟨r₁, used₁, rest₁, hrun₁, rfl, hbits₁, hr₁⟩ :=
        @readBits_run _ _ (le_refl part.size.toNat) 0 _ hr offset _ _ _ hbits
      rw [Nat.zero_mul, Nat.zero_add, Nat.mod_eq_of_lt hword] at hrun₁
      obtain ⟨field, hfield⟩ : ∃ field : ProtoDefField, field =
          { path := childPath path part.name, type := txt "bitfield",
            value := decimalInt (raw part), offset := offset,
            size := offset + used₁.length - offset } := ⟨_, rfl⟩
      have hpart : readPart true path (r, decoded) part ⟨offset, used₁ ++ rest₁⟩ =
          .ok ((r₁, decoded.record true field), ⟨offset + used₁.length, rest₁⟩) := by
        rw [readPart, Reader.offset_run, if_neg (by omega), Reader.bind_run hrun₁]
        dsimp only
        rw [Reader.offset_run, hnumber, hfield]
        rfl
      obtain ⟨r', decoded', used, rest', new, hrun, rfl, hback, hr', hout, hnew⟩ :=
        ih (fun p hp ↦ hparts p (by simp [hp])) (fun p hp ↦ hraw p (by simp [hp])) hr₁
          (decoded.record true field) hbits₁
      refine ⟨r', decoded', used₁ ++ used, rest', field :: new, ?_, by rw [List.append_assoc],
        hback, hr', ?_, ?_⟩
      · rw [List.foldlM_cons, Reader.bind_run hpart, hrun, List.length_append, Nat.add_assoc]
      · rw [hout]
        exact List.append_assoc _ _ _
      · rw [List.map_cons, List.map_cons, hnew, hfield]
        rfl

end Parts

/-! ## The round trip -/

section RoundTrip

variable (undefinedCast : UInt64 → UInt64) (fields : List (Text × ProtoDefValue))

/-- The part's field is an integer that the part can hold. -/
def FieldInPart (part : BitfieldPart) : Prop :=
  ∃ field z, find part.name fields = some field ∧ field.wholeNumber = some z ∧ InPart part z

/-- The part's field becomes, cast to 64 bits, a number that the part can hold. -/
def CastInPart (part : BitfieldPart) : Prop :=
  ∃ field z, find part.name fields = some field ∧ asInt undefinedCast field = .ok z ∧ InPart part z

/-- The integer in the part's field. -/
def fieldInteger (part : BitfieldPart) : ℤ :=
  ((find part.name fields).bind wholeNumber).getD 0

/-- What is decoded from the bytes is what was encoded, and all of it. -/
def GivesBack (bitfieldJson : Text) (parts : List BitfieldPart) : Prop :=
  ∃ bytes, encodeBitfield undefinedCast bitfieldJson (.object fields) = .ok bytes ∧
    bytes.length = (totalSize parts + 7) / 8 ∧
    ∀ path decoded offset suffix, ∃ decoded' new,
      decodeBitfield true bitfieldJson path decoded ⟨offset, bytes ++ suffix⟩ =
        .ok (decoded', ⟨offset + bytes.length, suffix⟩) ∧
      decoded'.out = decoded.out ++ new ∧
      new.map (fun field ↦ (field.path, field.value)) =
        parts.map (partText path (fieldInteger fields))

/-- Integers in range come back, and an object that has another field is refused. -/
def Faithful (bitfieldJson : Text) (parts : List BitfieldPart) : Prop :=
  ((∀ part ∈ parts, FieldInPart fields part) → GivesBack undefinedCast fields bitfieldJson parts) ∧
    ((∃ part ∈ parts, ¬FieldInPart fields part) →
      ∃ e, encodeBitfield undefinedCast bitfieldJson (.object fields) = .error e)

variable {undefinedCast fields} {part : BitfieldPart}

theorem partValue_eq_ok (hpart : Supported part) {raw : ℤ} :
    partValue undefinedCast fields part = .ok raw ↔
      ∃ field, find part.name fields = some field ∧ asInt undefinedCast field = .ok raw ∧
        InPart part raw := by
  obtain ⟨hlow, hhigh⟩ := hpart
  rw [partValue]
  cases hfind : find part.name fields with
  | none => exact iff_of_false (fun h ↦ by cases h) fun ⟨field, h, _⟩ ↦ by cases h
  | some field =>
      dsimp only
      cases hcast : asInt undefinedCast field with
      | error e =>
          refine iff_of_false (fun h ↦ by cases h) ?_
          rintro ⟨field', hsome, hok, -⟩
          obtain rfl := Option.some.inj hsome
          rw [hcast] at hok
          cases hok
      | ok z =>
          rw [ok_bind, if_neg (by omega)]
          by_cases hrange : z < minValue part ∨ maxValue part < z
          · rw [if_pos hrange]
            refine iff_of_false (fun h ↦ by cases h) ?_
            rintro ⟨field', hsome, hok, hmin, hmax⟩
            obtain rfl := Option.some.inj hsome
            obtain rfl := Except.ok.inj (hcast.symm.trans hok)
            omega
          · rw [if_neg hrange, Except.ok.injEq]
            constructor
            · rintro rfl
              exact ⟨field, rfl, hcast, by omega, by omega⟩
            · rintro ⟨field', hsome, hok, -⟩
              obtain rfl := Option.some.inj hsome
              exact Except.ok.inj (hcast.symm.trans hok)

/-- A number that a part can hold has far fewer than 64 bits. -/
theorem inSigned_of_inPart (hpart : Supported part) {z : ℤ} (hz : InPart part z) :
    InSigned 64 z := by
  obtain ⟨hlow, hhigh⟩ := hpart
  obtain ⟨hmin, hmax⟩ := hz
  have hpow : (2 : ℤ) ^ part.size.toNat ≤ 2 ^ 31 := pow_le_pow_right₀ (by norm_num) (by omega)
  have hpred : (2 : ℤ) ^ (part.size - 1).toNat ≤ 2 ^ 31 := pow_le_pow_right₀ (by norm_num) (by omega)
  rw [minValue] at hmin
  rw [maxValue] at hmax
  constructor
  · split at hmin <;> omega
  · split at hmax <;> omega

/-- The number written for a field that is an integer in range. -/
theorem partValue_of_fieldInPart (hpart : Supported part) (hfield : FieldInPart fields part) :
    partValue undefinedCast fields part = .ok (fieldInteger fields part) ∧
      InPart part (fieldInteger fields part) := by
  obtain ⟨field, z, hfind, hwhole, hz⟩ := hfield
  have hinteger : fieldInteger fields part = z := by
    rw [fieldInteger, hfind, Option.bind_some, hwhole]
    rfl
  rw [hinteger]
  exact ⟨(partValue_eq_ok hpart).mpr ⟨field, hfind,
    asInt_of_wholeNumber hwhole (inSigned_of_inPart hpart hz), hz⟩, hz⟩

variable {bitfieldJson : Text} {parts : List BitfieldPart}

/-- Fields that are integers in range come back. -/
theorem givesBack_of_inPart (hjson : readBitfieldParts bitfieldJson = .ok parts)
    (hparts : ∀ part ∈ parts, Supported part)
    (hfields : ∀ part ∈ parts, FieldInPart fields part) :
    GivesBack undefinedCast fields bitfieldJson parts := by
  have hvalues (part : BitfieldPart) (hpart : part ∈ parts) :=
    @partValue_of_fieldInPart undefinedCast _ _ (hparts part hpart)
      (hfields part hpart)
  obtain ⟨w, hrun, hsound, hwritten⟩ := foldlM_writePart (w := {})
    (fun part hpart ↦ (hvalues part hpart).1) ⟨Nat.succ_pos 7, Nat.one_pos⟩
  have hempty : BitWriter.written {} = empty := rfl
  rw [hempty, empty_append] at hwritten
  have hflush := ofBytes_flush hsound
  rw [hwritten] at hflush
  have hsize := congrArg BitString.size hflush
  rw [size_ofBytes, size_append, size_packed, size_low] at hsize
  refine ⟨flush w, ?_, by omega, fun path decoded offset suffix ↦ ?_⟩
  · rw [encodeBitfield, hjson]
    change (parts.foldlM (writePart undefinedCast fields) {} >>= _) = _
    rw [hrun]
    rfl
  · have hbits : BitReader.left {} ++ ofBytes (flush w ++ suffix) =
        packed (fieldInteger fields) parts ++ (low ((8 - w.bits) % 8) 0 ++ ofBytes suffix) := by
      have hleft : BitReader.left {} = empty := rfl
      rw [hleft, empty_append, ofBytes_append, hflush, append_assoc]
    obtain ⟨r', decoded', used, rest', new, hdecode, hsplit, hback, hr', hout, hnew⟩ :=
      foldlM_readPart hparts (fun part hpart ↦ (hvalues part hpart).2) path (Nat.succ_pos 7)
        decoded hbits
    have hsizes := congrArg BitString.size hback
    rw [size_append, size_append, BitReader.left, size_low, size_low, size_ofBytes,
      size_ofBytes] at hsizes
    obtain ⟨rfl, rfl⟩ := List.append_inj' hsplit (by omega)
    refine ⟨decoded', new, ?_, hout, hnew⟩
    rw [decodeBitfield, hjson, Reader.bind_run (Reader.lift_eq_ok.mpr ⟨rfl, rfl⟩),
      Reader.bind_run hdecode]
    rfl

/-- A part whose field is not cast into its range stops the encoder. -/
theorem encodeBitfield_error (hjson : readBitfieldParts bitfieldJson = .ok parts)
    (hparts : ∀ part ∈ parts, Supported part) (hpart : part ∈ parts)
    (hcast : ¬CastInPart undefinedCast fields part) :
    ∃ e, encodeBitfield undefinedCast bitfieldJson (.object fields) = .error e := by
  have hvalue (raw : ℤ) : partValue undefinedCast fields part ≠ .ok raw := by
    intro hok
    obtain ⟨field, hfield⟩ := (partValue_eq_ok (hparts part hpart)).mp hok
    exact hcast ⟨field, raw, hfield⟩
  obtain ⟨e, herror⟩ := foldlM_writePart_error hpart hvalue {}
  refine ⟨e, ?_⟩
  rw [encodeBitfield, hjson]
  change (parts.foldlM (writePart undefinedCast fields) {} >>= _) = _
  rw [herror]
  rfl

/-- Fields that are all cast into range are accepted. -/
theorem encodeBitfield_ok (hjson : readBitfieldParts bitfieldJson = .ok parts)
    (hparts : ∀ part ∈ parts, Supported part)
    (hcast : ∀ part ∈ parts, CastInPart undefinedCast fields part) :
    ∃ bytes, encodeBitfield undefinedCast bitfieldJson (.object fields) = .ok bytes := by
  have hvalues (part : BitfieldPart) (hpart : part ∈ parts) :
      ∃ raw, partValue undefinedCast fields part = .ok raw := by
    obtain ⟨field, z, hfield⟩ := hcast part hpart
    exact ⟨z, (partValue_eq_ok (hparts part hpart)).mpr ⟨field, hfield⟩⟩
  choose! raw hraw using hvalues
  obtain ⟨w, hrun, -⟩ := foldlM_writePart (w := {}) hraw ⟨Nat.succ_pos 7, Nat.one_pos⟩
  refine ⟨flush w, ?_⟩
  rw [encodeBitfield, hjson]
  change (parts.foldlM (writePart undefinedCast fields) {} >>= _) = _
  rw [hrun]
  rfl

end RoundTrip

/-- A bit field is faithful for an object exactly when all fields are integers in the ranges
of their parts, or one of them is not even cast into its range. -/
theorem bitfield_faithful_iff (undefinedCast : UInt64 → UInt64) (bitfieldJson : Text)
    (parts : List BitfieldPart) (fields : List (Text × ProtoDefValue))
    (hjson : readBitfieldParts bitfieldJson = .ok parts)
    (hparts : ∀ part ∈ parts, Supported part) :
    Faithful undefinedCast fields bitfieldJson parts ↔
      ((∀ part ∈ parts, FieldInPart fields part) ∨
        ∃ part ∈ parts, ¬CastInPart undefinedCast fields part) := by
  constructor
  · rintro ⟨-, hrefuse⟩
    by_cases hall : ∀ part ∈ parts, FieldInPart fields part
    · exact .inl hall
    · right
      by_contra hcast
      push Not at hall hcast
      obtain ⟨bytes, hok⟩ := encodeBitfield_ok hjson hparts hcast
      obtain ⟨e, herror⟩ := hrefuse hall
      rw [hok] at herror
      cases herror
  · intro hcond
    refine ⟨givesBack_of_inPart hjson hparts, ?_⟩
    rintro ⟨part, hpart, hfield⟩
    rcases hcond with hall | ⟨other, hother, hcast⟩
    · exact (hfield (hall part hpart)).elim
    · exact encodeBitfield_error hjson hparts hother hcast

/-- A schema with one signed part of four bits. -/
def signedPart : Text :=
  txt "[\"bitfield\",[\x7b\"name\":\"x\",\"size\":4,\"signed\":true\x7d]]"

theorem bitfield_faithful_iff_signed :
    Faithful (fun _ ↦ 0) [(txt "x", .int (-3))] signedPart [⟨txt "x", 4, true⟩] ↔
      ((∀ part ∈ [⟨txt "x", 4, true⟩], FieldInPart [(txt "x", .int (-3))] part) ∨
        ∃ part ∈ [⟨txt "x", 4, true⟩], ¬CastInPart (fun _ ↦ 0) [(txt "x", .int (-3))] part) :=
  bitfield_faithful_iff (fun _ ↦ 0) signedPart [⟨txt "x", 4, true⟩] [(txt "x", .int (-3))]
    (by decide) (by decide)

/-- The largest unsigned number is written as `-1`. -/
theorem bitfield_accepts_wrapped :
    ¬Faithful (fun _ ↦ 0) [(txt "x", .uint (2 ^ 64 - 1))] signedPart [⟨txt "x", 4, true⟩] := by
  rintro ⟨-, hrefuse⟩
  have hout : ¬FieldInPart [(txt "x", .uint (2 ^ 64 - 1))] ⟨txt "x", 4, true⟩ := by
    rintro ⟨field, z, hfind, hwhole, hz⟩
    have hfield : ProtoDefValue.uint (2 ^ 64 - 1) = field := Option.some.inj hfind
    subst hfield
    obtain rfl := Option.some.inj hwhole
    revert hz
    decide
  obtain ⟨e, herror⟩ := hrefuse ⟨_, List.mem_singleton.mpr rfl, hout⟩
  have hok : encodeBitfield (fun _ ↦ 0) signedPart
      (.object [(txt "x", .uint (2 ^ 64 - 1))]) = .ok [0xf0] := by decide
  rw [hok] at herror
  cases herror

end Bitfield

end BedrockProtocol
