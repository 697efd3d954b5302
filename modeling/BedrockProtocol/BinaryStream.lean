import BedrockProtocol.Lib.Leb128

/-!
# Binary streams

`BinaryStream.cpp`: fixed-width little-endian words and varints over a buffer
with a read position.  Writers return the bytes they append.
-/

namespace BedrockProtocol

namespace BinaryStream

def notEnough (_ : Cursor) : String := "not enough bytes in BinaryStream"

def readU8 : Reader UInt8 := Reader.byte notEnough

def readBytes (len : ℕ) : Reader (List UInt8) := Reader.take len notEnough

/-- A little-endian word of `k` bytes. -/
def readWord (k : ℕ) : Reader ℕ := leValue <$> readBytes k

def readVarUInt : Reader ℕ := readLeb128 (fun _ ↦ readU8) "VarUInt too big" 32 5 0 0

def readVarULong : Reader ℕ := readLeb128 (fun _ ↦ readU8) "VarULong too big" 64 10 0 0

def writeVarUInt (v : ℕ) : List UInt8 := leb128 4 v

def writeVarULong (v : ℕ) : List UInt8 := leb128 9 v

/-- The word as it is, read as a signed one. -/
def readVarInt : Reader ℤ := toSigned 32 <$> readVarUInt

def writeVarInt (v : ℤ) : List UInt8 := writeVarUInt (toUnsigned 32 v)

/-- A two's-complement word of `k` bytes. -/
def readSigned (k : ℕ) : Reader ℤ := toSigned (8 * k) <$> readWord k

def writeSigned (k : ℕ) (v : ℤ) : List UInt8 := leBytes k (toUnsigned (8 * k) v)

theorem reads_readU8 (b : UInt8) : Reads readU8 [b] b := Reads.byte b

theorem reads_readBytes (bytes : List UInt8) : Reads (readBytes bytes.length) bytes bytes :=
  Reads.take bytes rfl

theorem reads_readWord {k v : ℕ} (h : v < 256 ^ k) : Reads (readWord k) (leBytes k v) v := by
  have hread := (Reads.take (s := notEnough) (leBytes k v) (length_leBytes k v)).map
    (f := leValue)
  rwa [leValue_leBytes_of_lt h] at hread

theorem reads_readVarUInt {v : ℕ} (h : v < 2 ^ 32) : Reads readVarUInt (writeVarUInt v) v :=
  reads_leb128 (takesGroups_const reads_readU8) (by omega) h (by omega)

theorem reads_readVarInt {v : ℤ} (h : InSigned 32 v) : Reads readVarInt (writeVarInt v) v := by
  have hread := (reads_readVarUInt (toUnsigned_lt 32 v)).map (f := toSigned 32)
  rwa [toSigned_toUnsigned (by omega) h] at hread

theorem reads_readVarULong {v : ℕ} (h : v < 2 ^ 64) : Reads readVarULong (writeVarULong v) v :=
  reads_leb128 (takesGroups_const reads_readU8) (by omega) h (by omega)

theorem reads_readSigned {k : ℕ} (hk : 0 < k) {v : ℤ} (h : InSigned (8 * k) v) :
    Reads (readSigned k) (writeSigned k v) v := by
  have hlt : toUnsigned (8 * k) v < 256 ^ k := by
    have := toUnsigned_lt (8 * k) v
    rwa [pow_mul] at this
  have hread := (reads_readWord hlt).map (f := toSigned (8 * k))
  rwa [toSigned_toUnsigned (by omega) h] at hread

/-! ## What a reader took is what the writer writes -/

theorem recognizes_readU8 : Recognizes readU8 fun bytes b ↦ bytes = [b] := .byte

theorem recognizes_readBytes (len : ℕ) :
    Recognizes (readBytes len) fun bytes value ↦ bytes = value ∧ value.length = len := .take

theorem recognizes_readWord (k : ℕ) :
    Recognizes (readWord k) fun bytes v ↦ bytes = leBytes k v ∧ v < 256 ^ k := by
  refine (recognizes_readBytes k).map.mono ?_
  rintro bytes _ ⟨_, ⟨rfl, rfl⟩, rfl⟩
  exact ⟨(leBytes_leValue bytes).symm, leValue_lt bytes⟩

theorem recognizes_readSigned {k : ℕ} (hk : 0 < k) :
    Recognizes (readSigned k) fun bytes v ↦ bytes = writeSigned k v ∧ InSigned (8 * k) v := by
  refine (recognizes_readWord k).map.mono ?_
  rintro _ _ ⟨v, ⟨rfl, hlt⟩, rfl⟩
  have hlt' : v < 2 ^ (8 * k) := by rwa [pow_mul]
  rw [writeSigned, toUnsigned_toSigned hlt']
  exact ⟨rfl, toSigned_inSigned (by omega) hlt'⟩

@[simp] theorem length_writeSigned (k : ℕ) (v : ℤ) : (writeSigned k v).length = k := by
  simp [writeSigned]

end BinaryStream

end BedrockProtocol
