import BedrockProtocol.Lib.BackReference
import BedrockProtocol.Lib.Leb128

/-!
# The Snappy block codec

`SnappyCodec.cpp`: a varint with the uncompressed length, then literal and copy
elements.  The compressor cuts its input into fragments, finds repeats of four
bytes through a hash table and never refers back across a fragment boundary;
the decompressor interprets elements until the declared length is reached.
-/

namespace BedrockProtocol

namespace SnappyCodec

def SNAPPY_FRAGMENT_SIZE : ℕ := 65536

def HASH_BITS : ℕ := 15

def HASH_MULTIPLIER : ℕ := 0x1e35a7bd

/-! ## Compression -/

/-- The four bytes at `offset` as a little-endian word. -/
def load32 (input : List UInt8) (offset : ℕ) : ℕ := leValue ((input.drop offset).take 4)

def hashSequence (sequence : ℕ) : ℕ :=
  ((sequence * HASH_MULTIPLIER) % 2 ^ 32) >>> (32 - HASH_BITS)

def writeVarUInt32 (value : ℕ) : List UInt8 := leb128 4 value

/-- How many bytes a 32-bit length takes, at least one. -/
def lengthBytes (lengthMinusOne : ℕ) : ℕ :=
  if lengthMinusOne >>> 8 = 0 then 1
  else if lengthMinusOne >>> 16 = 0 then 2
  else if lengthMinusOne >>> 24 = 0 then 3 else 4

def emitLiteral (input : List UInt8) (offset length : ℕ) : List UInt8 :=
  if length = 0 then []
  else
    let lengthMinusOne := (length - 1) % 2 ^ 32
    let header :=
      if length ≤ 60 then [UInt8.ofNat (lengthMinusOne <<< 2)]
      else UInt8.ofNat ((59 + lengthBytes lengthMinusOne) <<< 2) ::
        leBytes (lengthBytes lengthMinusOne) lengthMinusOne
    header ++ (input.drop offset).take length

def emitCopyOne (offset length : ℕ) : List UInt8 :=
  [UInt8.ofNat (0x01 ||| ((length - 4) <<< 2) ||| ((offset >>> 8) <<< 5)), UInt8.ofNat offset]

def emitCopyTwo (offset length : ℕ) : List UInt8 :=
  [UInt8.ofNat (((length - 1) <<< 2) ||| 0x02), UInt8.ofNat offset, UInt8.ofNat (offset >>> 8)]

/-- The last element of a copy: the two-byte form where it fits. -/
def emitFinalCopy (offset finalLength : ℕ) : List UInt8 :=
  if offset < 2048 ∧ 4 ≤ finalLength ∧ finalLength ≤ 11 then emitCopyOne offset finalLength
  else emitCopyTwo offset finalLength

/-- Copies of at most 64 bytes each; the first argument bounds the iterations
of the loop, which takes 64 bytes off at a time. -/
def emitCopyFrom (offset : ℕ) : ℕ → ℕ → List UInt8
  | 0, length => emitFinalCopy offset length
  | fuel + 1, length =>
      if 68 ≤ length then emitCopyTwo offset 64 ++ emitCopyFrom offset fuel (length - 64)
      else if 64 < length then emitCopyTwo offset 60 ++ emitFinalCopy offset (length - 60)
      else emitFinalCopy offset length

def emitCopy (offset length : ℕ) : List UInt8 := emitCopyFrom offset length length

/-- Extend a match byte by byte up to the end of the fragment. -/
def extendMatch (input : List UInt8) (candidate position fragmentEnd : ℕ) : ℕ → ℕ → ℕ
  | 0, matchLength => matchLength
  | fuel + 1, matchLength =>
      if position + matchLength < fragmentEnd ∧
          input[candidate + matchLength]? = input[position + matchLength]? then
        extendMatch input candidate position fragmentEnd fuel (matchLength + 1)
      else matchLength

/-- The scan of `compressFragment`.  `table` maps a hash to the last position
that had it; each turn advances `position`, so `fragmentEnd - position` turns
are enough. -/
def compressScan (input : List UInt8) (fragmentBegin fragmentEnd : ℕ) :
    ℕ → (table : ℕ → Option ℕ) → (nextLiteral position : ℕ) → List UInt8
  | 0, _, nextLiteral, _ => emitLiteral input nextLiteral (fragmentEnd - nextLiteral)
  | fuel + 1, table, nextLiteral, position =>
      if position ≤ fragmentEnd - 4 then
        let hash := hashSequence (load32 input position)
        let table' := Function.update table hash (some position)
        match table hash with
        | none => compressScan input fragmentBegin fragmentEnd fuel table' nextLiteral (position + 1)
        | some candidate =>
            if candidate < fragmentBegin ∨ load32 input candidate ≠ load32 input position then
              compressScan input fragmentBegin fragmentEnd fuel table' nextLiteral (position + 1)
            else
              let matchLength := extendMatch input candidate position fragmentEnd
                (fragmentEnd - position) 4
              let position' := position + matchLength
              let elements := emitLiteral input nextLiteral (position - nextLiteral) ++
                emitCopy ((position - candidate) % 2 ^ 32) matchLength
              if fragmentEnd - 4 < position' then
                elements ++ emitLiteral input position' (fragmentEnd - position')
              else
                -- Seed the table with the sequence just before the next scan.
                let previous := position' - 1
                let table'' := Function.update table' (hashSequence (load32 input previous))
                  (some previous)
                elements ++ compressScan input fragmentBegin fragmentEnd fuel table''
                  position' position'
      else emitLiteral input nextLiteral (fragmentEnd - nextLiteral)

def compressFragment (input : List UInt8) (fragmentBegin fragmentEnd : ℕ) : List UInt8 :=
  if fragmentEnd - fragmentBegin < 4 then
    emitLiteral input fragmentBegin (fragmentEnd - fragmentBegin)
  else
    compressScan input fragmentBegin fragmentEnd (fragmentEnd - fragmentBegin) (fun _ ↦ none)
      fragmentBegin fragmentBegin

/-- Fragment after fragment; every one takes at least one byte off the input. -/
def compressFragments (input : List UInt8) : ℕ → ℕ → List UInt8
  | 0, _ => []
  | fuel + 1, fragmentBegin =>
      if fragmentBegin < input.length then
        let fragmentEnd := fragmentBegin + min SNAPPY_FRAGMENT_SIZE (input.length - fragmentBegin)
        compressFragment input fragmentBegin fragmentEnd ++
          compressFragments input fuel fragmentEnd
      else []

def compress (input : List UInt8) : Except String (List UInt8) :=
  if 2 ^ 32 - 1 < input.length then
    .error "snappy input exceeds the 32-bit block limit"
  else .ok (writeVarUInt32 input.length ++ compressFragments input input.length 0)

/-! ## Decompression -/

/-- A byte of the declared length; the fifth has to be below 16. -/
def readLengthByte (shift : ℕ) : Reader UInt8 := do
  let b ← Reader.byte fun _ ↦ "snappy uncompressed length is truncated"
  if shift = 28 ∧ b.toNat &&& 0xf0 ≠ 0 then throw "snappy uncompressed length is invalid"
  else pure b

def readVarUInt32 : Reader ℕ := do
  if (← Reader.remaining) = 0 then throw "snappy block is missing the uncompressed length"
  else readLeb128 readLengthByte "snappy uncompressed length is invalid" 32 5 0 0

def readLittleEndian (byteCount : ℕ) (truncatedMessage : String) : Reader ℕ := do
  let bytes ← Reader.take byteCount fun _ ↦ truncatedMessage
  pure (leValue bytes)

/-- The length of a literal: in the tag, or in the one to four bytes after it. -/
def readLiteralLength (encodedLength : ℕ) : Reader ℕ :=
  if encodedLength < 60 then pure (encodedLength + 1)
  else do
    let lengthMinusOne ←
      readLittleEndian (encodedLength - 59) "snappy literal length is truncated"
    pure (lengthMinusOne + 1)

/-- A literal element: `literalLength` input bytes, appended to the output. -/
def readLiteral (declaredLength : ℕ) (output : List UInt8) (tag : ℕ) : Reader (List UInt8) := do
  let literalLength ← readLiteralLength (tag >>> 2)
  if (← Reader.remaining) < literalLength then throw "snappy literal is truncated"
  else if declaredLength - output.length < literalLength then
    throw "snappy literal exceeds the declared size"
  else
    let bytes ← Reader.take literalLength fun _ ↦ "snappy literal is truncated"
    pure (output ++ bytes)

/-- The checks and the byte-by-byte loop shared by the three copy elements. -/
def applyCopy (declaredLength : ℕ) (output : List UInt8) (copyLength copyOffset : ℕ) :
    Except String (List UInt8) :=
  if copyOffset = 0 ∨ output.length < copyOffset then .error "snappy copy offset is invalid"
  else if declaredLength - output.length < copyLength then
    .error "snappy copy exceeds the declared size"
  else .ok (copyBack copyOffset copyLength output)

/-- One element of the block, applied to the output so far. -/
def readElement (declaredLength : ℕ) (output : List UInt8) : Reader (List UInt8) := do
  let b ← Reader.byte fun _ ↦ "snappy block is truncated"
  let tag := b.toNat
  if tag &&& 0x03 = 0 then readLiteral declaredLength output tag
  else if tag &&& 0x03 = 1 then
    let offsetLow ← readLittleEndian 1 "snappy copy-1 offset is truncated"
    applyCopy declaredLength output (4 + ((tag >>> 2) &&& 0x07))
      (((tag &&& 0xe0) <<< 3) ||| offsetLow)
  else if tag &&& 0x03 = 2 then
    let copyOffset ← readLittleEndian 2 "snappy copy-2 offset is truncated"
    applyCopy declaredLength output (1 + (tag >>> 2)) copyOffset
  else
    let copyOffset ← readLittleEndian 4 "snappy copy-4 offset is truncated"
    applyCopy declaredLength output (1 + (tag >>> 2)) copyOffset

/-- Element after element while there is input and output left; every element
takes at least one input byte. -/
def readElements (declaredLength : ℕ) : ℕ → List UInt8 → Reader (List UInt8)
  | 0, output => pure output
  | fuel + 1, output => do
      if (← Reader.remaining) = 0 ∨ declaredLength ≤ output.length then pure output
      else
        let output ← readElement declaredLength output
        readElements declaredLength fuel output

def decompressBlock : Reader (List UInt8) := do
  let declaredLength ← readVarUInt32
  let output ← readElements declaredLength (← Reader.remaining) []
  if output.length ≠ declaredLength then throw "snappy block ended before the declared size"
  else if (← Reader.remaining) ≠ 0 then throw "snappy block has trailing data"
  else pure output

def decompress (input : List UInt8) : Except String (List UInt8) :=
  Prod.fst <$> decompressBlock (Cursor.start input)

end SnappyCodec

end BedrockProtocol
