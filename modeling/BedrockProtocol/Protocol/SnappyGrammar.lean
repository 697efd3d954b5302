import BedrockProtocol.Protocol.SnappyBuffers
import BedrockProtocol.Protocol.SnappyRoundTrip

/-!
# The blocks that the Snappy decompressor accepts

A grammar of the block format, stated without a reader: the varint of the length,
then literal and copy elements, whose left-to-right interpretation is the text.
The decompressor returns a text exactly for the blocks of that text and throws its
own exception on every other input.
-/

namespace BedrockProtocol

open SnappyCodec SnappyBuffers

/-- A base-128 number, least significant group first; it need not be the shortest. -/
inductive Varint : List UInt8 → ℕ → Prop
  | last {b : UInt8} (hb : b.toNat < 128) : Varint [b] b.toNat
  | more {b : UInt8} {bytes : List UInt8} {value : ℕ} (hb : 128 ≤ b.toNat)
      (h : Varint bytes value) : Varint (b :: bytes) (b.toNat - 128 + 128 * value)

inductive SnappyElement
  | literal (bytes : List UInt8)
  | copy (offset length : ℕ)

namespace SnappyElement

/-- The well-formed encodings of an element. -/
inductive Encodes : SnappyElement → List UInt8 → Prop
  | shortLiteral {tag : UInt8} {bytes : List UInt8} (hpos : 1 ≤ bytes.length)
      (hle : bytes.length ≤ 60) (htag : tag.toNat = 4 * (bytes.length - 1)) :
      Encodes (literal bytes) (tag :: bytes)
  | longLiteral {tag : UInt8} {header bytes : List UInt8} (hpos : 1 ≤ header.length)
      (hle : header.length ≤ 4) (htag : tag.toNat = 4 * (59 + header.length))
      (hlength : bytes.length = leValue header + 1) :
      Encodes (literal bytes) (tag :: (header ++ bytes))
  | copyOne {tag low : UInt8} {offset length : ℕ} (hlow : 4 ≤ length) (hhigh : length ≤ 11)
      (htag : tag.toNat = 32 * (offset / 256) + 4 * (length - 4) + 1)
      (hoffset : low.toNat = offset % 256) : Encodes (copy offset length) [tag, low]
  | copyTwo {tag : UInt8} {bytes : List UInt8} {length : ℕ} (hlow : 1 ≤ length)
      (hhigh : length ≤ 64) (htag : tag.toNat = 4 * (length - 1) + 2) (hbytes : bytes.length = 2) :
      Encodes (copy (leValue bytes) length) (tag :: bytes)
  | copyFour {tag : UInt8} {bytes : List UInt8} {length : ℕ} (hlow : 1 ≤ length)
      (hhigh : length ≤ 64) (htag : tag.toNat = 4 * (length - 1) + 3) (hbytes : bytes.length = 4) :
      Encodes (copy (leValue bytes) length) (tag :: bytes)

/-- A copy refers to a byte that is there. -/
def Valid (produced : ℕ) : SnappyElement → Prop
  | literal _ => True
  | copy offset _ => 1 ≤ offset ∧ offset ≤ produced

/-- The text after an element. -/
def apply (output : List UInt8) : SnappyElement → List UInt8
  | literal bytes => output ++ bytes
  | copy offset length => copyBack offset length output

end SnappyElement

open SnappyElement

/-- The encodings of the elements, one after the other. -/
inductive EncodesAll : List SnappyElement → List UInt8 → Prop
  | nil : EncodesAll [] []
  | cons {element : SnappyElement} {elements : List SnappyElement} {bytes rest : List UInt8}
      (h : element.Encodes bytes) (hrest : EncodesAll elements rest) :
      EncodesAll (element :: elements) (bytes ++ rest)

/-- From left to right, every element is valid where it stands and stays within the
declared length. -/
def WellFormed (declaredLength : ℕ) : List UInt8 → List SnappyElement → Prop
  | _, [] => True
  | output, element :: elements =>
      element.Valid output.length ∧ (element.apply output).length ≤ declaredLength ∧
        WellFormed declaredLength (element.apply output) elements

def interpret (output : List UInt8) (elements : List SnappyElement) : List UInt8 :=
  elements.foldl SnappyElement.apply output

/-- `input` is a block of `out`. -/
structure IsBlock (input out : List UInt8) (header body : List UInt8)
    (elements : List SnappyElement) : Prop where
  input_eq : input = header ++ body
  varint : Varint header out.length
  header_le : header.length ≤ 5
  length_lt : out.length < 2 ^ 32
  encodes : EncodesAll elements body
  wellFormed : WellFormed out.length [] elements
  interpret_eq : interpret [] elements = out

/-- The inputs that the format gives a meaning. -/
def BlockOf (input out : List UInt8) : Prop :=
  ∃ header body elements, IsBlock input out header body elements

/-! ## The declared length -/

theorem Varint.length_pos {bytes : List UInt8} {value : ℕ} (h : Varint bytes value) :
    0 < bytes.length := by
  cases h <;> simp

/-- A byte of the length that has the room it needs. -/
theorem reads_readLengthByte {shift : ℕ} {b : UInt8} (h : shift = 28 → b.toNat < 16) :
    Reads (readLengthByte shift) [b] b := by
  refine (Reads.byte b).bind_last ?_
  have hnibble : ∀ n < 16, n &&& 0xf0 = 0 := by decide
  have hgroup : ¬ (shift = 28 ∧ b.toNat &&& 0xf0 ≠ 0) := by
    rintro ⟨rfl, hb⟩
    exact hb (hnibble _ (h rfl))
  rw [if_neg hgroup]
  exact Reads.pure b

theorem reads_varint {bytes : List UInt8} {value : ℕ} (h : Varint bytes value) :
    ∀ groups shift acc, shift + 7 * groups = 35 → bytes.length ≤ groups → acc < 2 ^ shift →
      value * 2 ^ shift < 2 ^ 32 →
      Reads (readLeb128 readLengthByte "snappy uncompressed length is invalid" 32 groups shift acc)
        bytes (acc + value * 2 ^ shift) := by
  induction h with
  | @last b hb =>
      intro groups shift acc hgroups hlength hacc hfit
      obtain ⟨groups, rfl⟩ : ∃ g, groups = g + 1 := ⟨groups - 1, by simp at hlength; omega⟩
      have hroom : shift = 28 → b.toNat < 16 := by
        rintro rfl
        omega
      refine (reads_readLengthByte hroom).bind_last ?_
      rw [if_pos ((and_0x80_eq_zero_iff (by omega)).mpr hb), and_0x7f, Nat.mod_eq_of_lt hb,
        leb128_group hacc hfit]
      exact Reads.pure _
  | @more b bytes value hb hrest ih =>
      intro groups shift acc hgroups hlength hacc hfit
      have hpos := hrest.length_pos
      rw [List.length_cons] at hlength
      obtain ⟨groups, rfl⟩ : ∃ g, groups = g + 1 := ⟨groups - 1, by omega⟩
      have hlt := b.toNat_lt
      have hlow : b.toNat % 128 = b.toNat - 128 := by omega
      have hpow : (2 : ℕ) ^ (shift + 7) = 128 * 2 ^ shift := by rw [pow_add]; ring
      have hmul : (b.toNat - 128 + 128 * value) * 2 ^ shift =
          (b.toNat - 128) * 2 ^ shift + value * 2 ^ (shift + 7) := by
        rw [hpow]
        ring
      have hle : (b.toNat - 128) * 2 ^ shift ≤ 127 * 2 ^ shift :=
        Nat.mul_le_mul_right _ (by omega)
      refine (reads_readLengthByte (fun h28 ↦ by omega)).bind_cons ?_
      rw [if_neg (by rw [and_0x80_eq_zero_iff] <;> omega), and_0x7f, hlow,
        leb128_group hacc (by omega), hmul, ← Nat.add_assoc]
      exact ih groups (shift + 7) _ (by omega) (by omega) (by omega) (by omega)

theorem recognizes_readLengthByte (shift : ℕ) :
    Recognizes (readLengthByte shift) fun bytes b ↦
      bytes = [b] ∧ (shift = 28 → b.toNat < 16) := by
  refine Recognizes.byte.bind fun bytes b hbytes ↦ ?_
  split
  · exact .throw _
  · rename_i hgroup
    refine .pure ⟨by rw [hbytes, List.append_nil], fun h28 ↦ ?_⟩
    by_contra hlarge
    refine hgroup ⟨h28, fun hzero ↦ hlarge ?_⟩
    have hand : b.toNat = (b.toNat &&& 0xf0) ||| (b.toNat &&& 0x0f) := by
      rw [← Nat.and_or_distrib_left]
      exact (Nat.and_two_pow_sub_one_of_lt_two_pow (n := 8) b.toNat_lt).symm
    rw [hand, hzero, Nat.zero_or]
    exact Nat.and_lt_two_pow (n := 4) _ (by norm_num)

theorem recognizes_varint (groups shift acc : ℕ) (hgroups : shift + 7 * groups = 35)
    (hacc : acc < 2 ^ shift) :
    Recognizes (readLeb128 readLengthByte "snappy uncompressed length is invalid" 32 groups
      shift acc) fun bytes v ↦
        ∃ u, Varint bytes u ∧ bytes.length ≤ groups ∧ v = acc + u * 2 ^ shift ∧ v < 2 ^ 32 := by
  induction groups generalizing shift acc with
  | zero => exact .throw _
  | succ groups ih =>
      have hpow : (2 : ℕ) ^ (shift + 7) = 128 * 2 ^ shift := by rw [pow_add]; ring
      refine (recognizes_readLengthByte shift).bind ?_
      rintro _ b ⟨rfl, hroom⟩
      have hlt := b.toNat_lt
      have hlow : b.toNat % 128 < 128 := Nat.mod_lt _ (by omega)
      have hle : b.toNat % 128 * 2 ^ shift ≤ 127 * 2 ^ shift := Nat.mul_le_mul_right _ (by omega)
      -- Four groups fill 28 bits and the fifth has four more.
      have hfit : acc + b.toNat % 128 * 2 ^ shift < 2 ^ 32 := by
        by_cases h28 : shift = 28
        · subst h28
          have := hroom rfl
          omega
        · have hshift : (2 : ℕ) ^ shift ≤ 2 ^ 21 := Nat.pow_le_pow_right (by omega) (by omega)
          omega
      dsimp only
      have hstop := and_0x80_eq_zero_iff (v := b.toNat) (by omega)
      rw [and_0x7f, leb128_group hacc (by omega)]
      by_cases hlast : b.toNat < 128
      · rw [if_pos (hstop.mpr hlast)]
        have hmod : b.toNat % 128 = b.toNat := Nat.mod_eq_of_lt hlast
        rw [hmod] at hfit ⊢
        exact .pure ⟨_, .last hlast, by simp, rfl, hfit⟩
      · rw [if_neg (mt hstop.mp hlast)]
        have hmod : b.toNat % 128 = b.toNat - 128 := by omega
        refine (ih (shift + 7) _ (by omega) (by omega)).mono ?_
        rintro bytes v ⟨u, hu, hlength, hv, hsmall⟩
        refine ⟨_, .more (by omega) hu, by simpa using hlength, ?_, hsmall⟩
        rw [hv, hmod, hpow]
        ring

theorem recognizes_readVarUInt32 :
    Recognizes SnappyCodec.readVarUInt32 fun bytes v ↦
      Varint bytes v ∧ bytes.length ≤ 5 ∧ v < 2 ^ 32 := by
  refine .remaining_bind fun n ↦ ?_
  split
  · exact .throw _
  · refine (recognizes_varint 5 0 0 rfl (by norm_num)).mono ?_
    rintro bytes v ⟨u, hu, hlength, hv, hsmall⟩
    have hsame : v = u := by simpa using hv
    exact ⟨hsame ▸ hu, hlength, hsmall⟩

theorem reads_readVarUInt32_of_varint {bytes : List UInt8} {value : ℕ} (h : Varint bytes value)
    (hlength : bytes.length ≤ 5) (hvalue : value < 2 ^ 32) :
    Reads SnappyCodec.readVarUInt32 bytes value := by
  refine reads_remaining_bind fun n hn ↦ ?_
  have hpos := h.length_pos
  rw [if_neg (by omega)]
  simpa using reads_varint h 5 0 0 rfl hlength (by norm_num) (by simpa using hvalue)

/-! ## One element -/

theorem recognizes_readLittleEndian (count : ℕ) (message : String) :
    Recognizes (SnappyCodec.readLittleEndian count message) fun bytes v ↦
      bytes.length = count ∧ v = leValue bytes := by
  refine Recognizes.take.bind ?_
  rintro _ bytes ⟨rfl, hlength⟩
  exact .pure ⟨by simpa using hlength, by simp⟩

theorem and_0x03 (n : ℕ) : n &&& 0x03 = n % 4 := Nat.and_two_pow_sub_one_eq_mod n 2

theorem and_0x07 (n : ℕ) : n &&& 0x07 = n % 8 := Nat.and_two_pow_sub_one_eq_mod n 3

theorem shiftRight_two (n : ℕ) : n >>> 2 = n / 4 := Nat.shiftRight_eq_div_pow n 2

theorem and_0xe0 : ∀ high < 8, ∀ low < 32, ((32 * high + low) &&& 0xe0) <<< 3 = high <<< 8 := by
  decide

/-- The three high bits of the tag lie above the offset byte. -/
theorem copyOne_offset {tag low : ℕ} (htag : tag < 256) (hlow : low < 256) :
    ((tag &&& 0xe0) <<< 3) ||| low = 256 * (tag / 32) + low := by
  have hhigh := and_0xe0 (tag / 32) (by omega) (tag % 32) (Nat.mod_lt _ (by omega))
  rw [Nat.div_add_mod] at hhigh
  rw [hhigh, Nat.or_comm, or_shiftLeft_of_lt (by omega)]
  omega

/-- What `applyCopy` accepts is a valid copy that fits. -/
theorem applyCopy_eq_ok {declaredLength length offset : ℕ} {output output' : List UInt8}
    (hpos : 1 ≤ length) :
    SnappyCodec.applyCopy declaredLength output length offset = .ok output' ↔
      (1 ≤ offset ∧ offset ≤ output.length) ∧
        (copyBack offset length output).length ≤ declaredLength ∧
        output' = copyBack offset length output := by
  rw [SnappyCodec.applyCopy, length_copyBack]
  constructor
  · intro h
    split_ifs at h with hoffset hroom
    exact ⟨by omega, by omega, (Except.ok.inj h).symm⟩
  · rintro ⟨hvalid, hfit, rfl⟩
    rw [if_neg (by omega), if_neg (by omega)]

/-- `output'` comes from `output` by the element that `bytes` encode. -/
def StepsBy (declaredLength : ℕ) (output bytes output' : List UInt8) : Prop :=
  ∃ element : SnappyElement, element.Encodes bytes ∧ element.Valid output.length ∧
    output' = element.apply output ∧ output'.length ≤ declaredLength

theorem recognizes_readLiteral {declaredLength : ℕ} {output : List UInt8} {tag : UInt8}
    (htag : tag.toNat % 4 = 0) :
    Recognizes (SnappyCodec.readLiteral declaredLength output tag.toNat) fun bytes output' ↦
      StepsBy declaredLength output (tag :: bytes) output' := by
  have hlt := tag.toNat_lt
  have hlength : Recognizes (SnappyCodec.readLiteralLength (tag.toNat >>> 2)) fun header length ↦
      1 ≤ length ∧ ∀ bytes : List UInt8, bytes.length = length →
        (SnappyElement.literal bytes).Encodes (tag :: (header ++ bytes)) := by
    rw [SnappyCodec.readLiteralLength, shiftRight_two]
    split
    · refine .pure ⟨by omega, fun bytes hbytes ↦ ?_⟩
      exact .shortLiteral (by omega) (by omega) (by omega)
    · refine (recognizes_readLittleEndian _ _).bind ?_
      rintro header value ⟨hheader, rfl⟩
      refine .pure ⟨by omega, fun bytes hbytes ↦ ?_⟩
      rw [List.append_nil]
      exact .longLiteral (by omega) (by omega) (by omega) hbytes
  refine hlength.bind ?_
  rintro header length ⟨hpos, hencodes⟩
  refine .remaining_bind fun n ↦ ?_
  split
  · exact .throw _
  split
  · exact .throw _
  rename_i hroom
  refine Recognizes.take.bind ?_
  rintro bytes _ ⟨rfl, hbytes⟩
  refine .pure ⟨.literal bytes, ?_, trivial, rfl, ?_⟩
  · rw [List.append_nil]
    exact hencodes bytes hbytes
  · rw [List.length_append]
    omega

/-- A copy whose offset is in the `count` bytes after the tag. -/
theorem recognizes_readCopy {declaredLength count length : ℕ} {output : List UInt8} {tag : UInt8}
    {message : String} {decodeOffset : ℕ → ℕ} (hpos : 1 ≤ length)
    (hencodes : ∀ bytes : List UInt8, bytes.length = count →
      (SnappyElement.copy (decodeOffset (leValue bytes)) length).Encodes (tag :: bytes)) :
    Recognizes (do
        let low ← SnappyCodec.readLittleEndian count message
        SnappyCodec.applyCopy declaredLength output length (decodeOffset low) : Reader (List UInt8))
      fun bytes output' ↦ StepsBy declaredLength output (tag :: bytes) output' := by
  refine (recognizes_readLittleEndian count message).bind ?_
  rintro bytes low ⟨hbytes, rfl⟩
  refine .lift fun output' hrun ↦ ?_
  obtain ⟨hvalid, hfit, rfl⟩ := (applyCopy_eq_ok hpos).mp hrun
  rw [List.append_nil]
  exact ⟨_, hencodes bytes hbytes, hvalid, rfl, hfit⟩

theorem recognizes_readElement (declaredLength : ℕ) (output : List UInt8) :
    Recognizes (SnappyCodec.readElement declaredLength output)
      (StepsBy declaredLength output) := by
  refine Recognizes.byte.bind ?_
  rintro _ tag rfl
  have hlt := tag.toNat_lt
  dsimp only
  rw [and_0x03]
  split
  · rename_i h0
    exact recognizes_readLiteral h0
  split
  · rename_i h1
    refine recognizes_readCopy (by omega) fun bytes hbytes ↦ ?_
    obtain ⟨low, rfl⟩ := List.length_eq_one_iff.mp hbytes
    have hlow := low.toNat_lt
    rw [copyOne_offset hlt (by simpa [leValue] using hlow), and_0x07, shiftRight_two]
    simp only [leValue]
    exact .copyOne (by omega) (by omega) (by omega) (by omega)
  split
  · refine @recognizes_readCopy _ _ _ _ _ _ id (by omega) fun bytes hbytes ↦ ?_
    rw [shiftRight_two]
    exact .copyTwo (by omega) (by omega) (by omega) hbytes
  · refine @recognizes_readCopy _ _ _ _ _ _ id (by omega) fun bytes hbytes ↦ ?_
    rw [shiftRight_two]
    exact .copyFour (by omega) (by omega) (by omega) hbytes

/-! ## The block -/

theorem SnappyElement.Encodes.ne_nil {element : SnappyElement} {bytes : List UInt8}
    (h : element.Encodes bytes) :
    bytes ≠ [] := by
  cases h <;> simp

/-- An element makes the text longer. -/
theorem SnappyElement.Encodes.length_lt {element : SnappyElement} {bytes : List UInt8}
    (h : element.Encodes bytes) (output : List UInt8) :
    output.length < (element.apply output).length := by
  cases h with
  | shortLiteral hpos hle htag =>
      rw [SnappyElement.apply, List.length_append]
      omega
  | longLiteral hpos hle htag hlength =>
      rw [SnappyElement.apply, List.length_append]
      omega
  | copyOne hlow hhigh htag hoffset =>
      rw [SnappyElement.apply, length_copyBack]
      omega
  | copyTwo hlow hhigh htag hbytes =>
      rw [SnappyElement.apply, length_copyBack]
      omega
  | copyFour hlow hhigh htag hbytes =>
      rw [SnappyElement.apply, length_copyBack]
      omega

theorem recognizes_readElements (declaredLength turns : ℕ) (output : List UInt8) :
    Recognizes (SnappyCodec.readElements declaredLength turns output) fun bytes output' ↦
      ∃ elements, EncodesAll elements bytes ∧ WellFormed declaredLength output elements ∧
        interpret output elements = output' := by
  induction turns generalizing output with
  | zero => exact .pure ⟨[], .nil, trivial, rfl⟩
  | succ turns ih =>
      refine .remaining_bind fun n ↦ ?_
      split
      · exact .pure ⟨[], .nil, trivial, rfl⟩
      · refine (recognizes_readElement declaredLength output).bind ?_
        rintro bytes output' ⟨element, hencodes, hvalid, rfl, hfit⟩
        refine (ih (element.apply output)).mono ?_
        rintro rest output'' ⟨elements, hrest, hwell, hinterpret⟩
        exact ⟨element :: elements, .cons hencodes hrest, ⟨hvalid, hfit, hwell⟩, hinterpret⟩

theorem blockOf_of_decompress {input out : List UInt8}
    (h : SnappyCodec.decompress input = .ok out) : BlockOf input out := by
  obtain ⟨⟨output, c⟩, hrun, rfl⟩ := map_eq_ok.mp h
  obtain ⟨declaredLength, c₁, hlength, hrun⟩ := Reader.run_bind_eq_ok hrun
  obtain ⟨header, hheader, hvarint, hle, hsmall⟩ := recognizes_readVarUInt32 _ _ _ hlength
  rw [Reader.remaining_run] at hrun
  obtain ⟨output', c₂, helements, hrun⟩ := Reader.run_bind_eq_ok hrun
  obtain ⟨body, hbody, elements, hencodes, hwell, hinterpret⟩ :=
    recognizes_readElements _ _ _ _ _ _ helements
  split at hrun
  · cases hrun
  rename_i hdone
  rw [not_not] at hdone
  rw [Reader.remaining_run] at hrun
  split at hrun
  · cases hrun
  rename_i hend
  rw [not_not, List.length_eq_zero_iff] at hend
  cases hrun
  subst hdone
  refine ⟨header, body, elements, ?_, hvarint, hle, hsmall, hencodes, hwell, hinterpret⟩
  rw [hbody, hend, List.append_nil] at hheader
  exact hheader

/-! ## Every block is accepted -/

theorem reads_readLittleEndian_of_length {count : ℕ} {bytes : List UInt8} (message : String)
    (h : bytes.length = count) :
    Reads (SnappyCodec.readLittleEndian count message) bytes (leValue bytes) :=
  (Reads.take bytes h).bind_last (Reads.pure _)

theorem reads_readCopy {declaredLength count length offset : ℕ} {output bytes : List UInt8}
    (message : String) (decodeOffset : ℕ → ℕ) (hbytes : bytes.length = count)
    (hoffset : decodeOffset (leValue bytes) = offset) (hlength : 1 ≤ length)
    (hvalid : (SnappyElement.copy offset length).Valid output.length)
    (hfit : ((SnappyElement.copy offset length).apply output).length ≤ declaredLength) :
    Reads (do
        let low ← SnappyCodec.readLittleEndian count message
        SnappyCodec.applyCopy declaredLength output length (decodeOffset low) : Reader (List UInt8))
      bytes ((SnappyElement.copy offset length).apply output) := by
  refine (reads_readLittleEndian_of_length message hbytes).bind_last (Reads.lift ?_)
  rw [hoffset]
  exact (applyCopy_eq_ok hlength).mpr ⟨hvalid, hfit, rfl⟩

theorem reads_readElement {declaredLength : ℕ} {output bytes : List UInt8}
    {element : SnappyElement} (h : element.Encodes bytes) (hvalid : element.Valid output.length)
    (hfit : (element.apply output).length ≤ declaredLength) :
    Reads (SnappyCodec.readElement declaredLength output) bytes (element.apply output) := by
  cases h with
  | @shortLiteral tag bytes hpos hle htag =>
      have hlength : Reads (SnappyCodec.readLiteralLength (tag.toNat >>> 2)) [] bytes.length := by
        rw [SnappyCodec.readLiteralLength, shiftRight_two, if_pos (by omega), htag,
          Nat.mul_div_cancel_left _ (by omega), Nat.sub_add_cancel hpos]
        exact Reads.pure _
      rw [SnappyElement.apply, List.length_append] at hfit
      refine (Reads.byte tag).bind_cons ?_
      dsimp only
      rw [and_0x03, if_pos (by omega)]
      exact reads_readLiteral hlength rfl hfit
  | @longLiteral tag header bytes hpos hle htag hbytes =>
      have hlength : Reads (SnappyCodec.readLiteralLength (tag.toNat >>> 2)) header
          bytes.length := by
        have hcount : header.length = tag.toNat / 4 - 59 := by omega
        rw [SnappyCodec.readLiteralLength, shiftRight_two, if_neg (by omega), hbytes]
        exact (reads_readLittleEndian_of_length _ hcount).bind_last (Reads.pure _)
      rw [SnappyElement.apply, List.length_append] at hfit
      refine (Reads.byte tag).bind_cons ?_
      dsimp only
      rw [and_0x03, if_pos (by omega)]
      exact reads_readLiteral hlength rfl hfit
  | @copyOne tag low offset length hlow hhigh htag hoffset =>
      have htagLt := tag.toNat_lt
      have hlowLt := low.toNat_lt
      have hlength : 4 + tag.toNat / 4 % 8 = length := by omega
      refine (Reads.byte tag).bind_cons ?_
      dsimp only
      rw [and_0x03, if_neg (by omega), if_pos (by omega), shiftRight_two, and_0x07, hlength]
      refine reads_readCopy _ (fun low ↦ ((tag.toNat &&& 0xe0) <<< 3) ||| low) rfl ?_ (by omega)
        hvalid hfit
      simp only [leValue]
      rw [copyOne_offset htagLt (by omega)]
      omega
  | @copyTwo tag bytes length hlow hhigh htag hbytes =>
      have hlength : 1 + tag.toNat / 4 = length := by omega
      refine (Reads.byte tag).bind_cons ?_
      dsimp only
      rw [and_0x03, if_neg (by omega), if_neg (by omega), if_pos (by omega), shiftRight_two,
        hlength]
      exact reads_readCopy _ id hbytes rfl hlow hvalid hfit
  | @copyFour tag bytes length hlow hhigh htag hbytes =>
      have hlength : 1 + tag.toNat / 4 = length := by omega
      refine (Reads.byte tag).bind_cons ?_
      dsimp only
      rw [and_0x03, if_neg (by omega), if_neg (by omega), if_neg (by omega), shiftRight_two,
        hlength]
      exact reads_readCopy _ id hbytes rfl hlow hvalid hfit

theorem elements_of_encodesAll {declaredLength : ℕ} {elements : List SnappyElement}
    {bytes output : List UInt8} (h : EncodesAll elements bytes)
    (hwell : WellFormed declaredLength output elements) :
    Elements declaredLength bytes output (interpret output elements) := by
  induction h generalizing output with
  | nil => exact .nil output
  | cons hencodes hrest ih =>
      obtain ⟨hvalid, hfit, hwell⟩ := hwell
      have hlonger := hencodes.length_lt output
      exact .cons hencodes.ne_nil (by omega) (reads_readElement hencodes hvalid hfit) (ih hwell)

theorem decompress_of_blockOf {input out : List UInt8} (h : BlockOf input out) :
    SnappyCodec.decompress input = .ok out := by
  obtain ⟨header, body, elements, rfl, hvarint, hle, hsmall, hencodes, hwell, hinterpret⟩ := h
  have hlength := (reads_readVarUInt32_of_varint hvarint hle hsmall).start body
  have helements := elements_of_encodesAll hencodes hwell
  rw [hinterpret] at helements
  have hrun := helements.readElements body.length header.length le_rfl
  rw [SnappyCodec.decompress, decompressBlock, Reader.bind_run hlength, Reader.remaining_run,
    Reader.bind_run hrun, if_neg (not_not.mpr rfl), Reader.remaining_run]
  rfl

/-- The decompressor returns a text exactly on the blocks of that text; on any
other input it throws its own exception, and it never leaves a buffer. -/
theorem decompress_iff_block (input : List UInt8) :
    (∀ out, SnappyBuffers.decompress input = .ok out ↔ BlockOf input out) ∧
      ((∀ out, ¬ BlockOf input out) →
        ∃ message, SnappyBuffers.decompress input = .error (.codecError message)) ∧
      SnappyBuffers.decompress input ≠ .error .outOfRange := by
  have hsame (out : List UInt8) (h : SnappyCodec.decompress input = .ok out) :
      BlockOf input out := blockOf_of_decompress h
  cases lockstep_decompress input with
  | @ok out out' hx hy hout =>
      subst hout
      refine ⟨fun out' ↦ ?_, fun hnone ↦ (hnone out (hsame out hy)).elim, by rw [hx]; simp⟩
      rw [hx]
      constructor
      · intro h
        cases h
        exact hsame out hy
      · intro h
        have hout := (decompress_of_blockOf h).symm.trans hy
        rw [Except.ok.inj hout]
  | @error fault message hx hy hfault =>
      obtain rfl : fault = .codecError message := hfault
      refine ⟨fun out ↦ ?_, fun _ ↦ ⟨message, hx⟩, by rw [hx]; simp⟩
      rw [hx]
      constructor
      · intro h
        cases h
      · intro h
        rw [decompress_of_blockOf h] at hy
        cases hy

end BedrockProtocol
