import BedrockProtocol.Lib.Leb128

/-!
# Reading and writing schema primitives

`ProtoDefReader.hpp` over `PacketFieldCursor`, and `ProtoDefWriter.hpp`: words
of fixed width in both byte orders and varints.  A reader consumes what the
writer of the same name wrote.
-/

namespace BedrockProtocol

namespace ProtoDefReader

/-- The message of `PacketFieldCursor::require`. -/
def notEnough (size : ℕ) (what : String) (c : Cursor) : String :=
  "not enough bytes for " ++ what ++ " at offset " ++ toString c.offset ++ " remaining=" ++
    toString c.remaining ++ " need=" ++ toString size

def u8 : Reader UInt8 := Reader.byte fun c ↦
  "not enough bytes for u8 at offset " ++ toString c.offset

def u16le : Reader ℕ := leValue <$> Reader.take 2 (notEnough 2 "u16")

def u32le : Reader ℕ := leValue <$> Reader.take 4 (notEnough 4 "u32")

/-- Byte after byte, the next one in the lowest place. -/
def beWord : ℕ → ℕ → Reader ℕ
  | 0, v => pure v
  | k + 1, v => do
      let b ← u8
      beWord k ((v <<< 8) ||| b.toNat)

def u16be : Reader ℕ := beWord 2 0

def u32be : Reader ℕ := beWord 4 0

def u64be : Reader ℕ := beWord 8 0

/-- Byte after byte, the next one `i` bytes up. -/
def leWord : ℕ → ℕ → ℕ → Reader ℕ
  | 0, _, v => pure v
  | k + 1, i, v => do
      let b ← u8
      leWord k (i + 1) (v ||| (b.toNat <<< (8 * i)))

def u64le : Reader ℕ := leWord 8 0 0

def i32le : Reader ℤ := toSigned 32 <$> u32le

def i32be : Reader ℤ := toSigned 32 <$> u32be

def i64le : Reader ℤ := toSigned 64 <$> u64le

def i64be : Reader ℤ := toSigned 64 <$> u64be

def varuint32 : Reader ℕ := readLeb128 (fun _ ↦ u8) "varuint32 too long" 32 5 0 0

def varuint64 : Reader ℕ := readLeb128 (fun _ ↦ u8) "varuint64 too long" 64 10 0 0

/-- `readVarUInt128` of the decoder. -/
def varuint128 : Reader ℕ := readLeb128 (fun _ ↦ u8) "varint128 too long" 128 19 0 0

def zigzag32 : Reader ℤ := (fun raw ↦ toSigned 32 (decodeZigZag 32 raw)) <$> varuint32

def zigzag64 : Reader ℤ := (fun raw ↦ toSigned 64 (decodeZigZag 64 raw)) <$> varuint64

def boolean : Reader Bool := (fun b ↦ b ≠ 0) <$> u8

def string : Reader (List UInt8) := do
  let len ← varuint32
  Reader.take len (notEnough len "string bytes")

def readBytes (count : ℕ) : Reader (List UInt8) := Reader.take count fun c ↦
  "not enough bytes at offset " ++ toString c.offset ++ " remaining=" ++ toString c.remaining ++
    " need=" ++ toString count

/-! ## What the readers consume -/

theorem reads_u8 (b : UInt8) : Reads u8 [b] b := Reads.byte b

/-- The number of one byte. -/
theorem reads_byte (n : ℕ) : Reads (UInt8.toNat <$> u8) (leBytes 1 n) (n % 2 ^ 8) := by
  have hread := (reads_u8 (UInt8.ofNat (n % 256))).map (f := UInt8.toNat)
  rwa [toNat_ofNat_of_lt (Nat.mod_lt n (by decide))] at hread

theorem reads_take_leBytes (k v : ℕ) (what : String) :
    Reads (leValue <$> Reader.take k (notEnough k what)) (leBytes k v) (v % 256 ^ k) := by
  have hread := (Reads.take (s := notEnough k what) (leBytes k v) (length_leBytes k v)).map
    (f := leValue)
  rwa [leValue_leBytes] at hread

theorem reads_beWord (k v acc : ℕ) :
    Reads (beWord k acc) (beBytes k v) (acc * 256 ^ k + v % 256 ^ k) := by
  induction k generalizing acc with
  | zero =>
      rw [pow_zero, Nat.mod_one, Nat.mul_one]
      exact Reads.pure acc
  | succ k ih =>
      have hbyte : (UInt8.ofNat (v / 256 ^ k)).toNat = v / 256 ^ k % 256 := UInt8.toNat_ofNat'
      have hjoin : (acc <<< 8) ||| (v / 256 ^ k % 256) = acc * 256 + v / 256 ^ k % 256 := by
        rw [Nat.shiftLeft_eq, Nat.mul_comm,
          Nat.two_pow_add_eq_or_of_lt (i := 8) (Nat.mod_lt _ (by decide)), Nat.mul_comm]
      have hvalue : (acc * 256 + v / 256 ^ k % 256) * 256 ^ k + v % 256 ^ k =
          acc * 256 ^ (k + 1) + v % 256 ^ (k + 1) := by
        rw [pow_succ, Nat.mod_mul]
        ring
      rw [beBytes_succ]
      refine (reads_u8 _).bind_cons ?_
      rw [hbyte, hjoin, ← hvalue]
      exact ih _

theorem reads_leWord (k v i : ℕ) {acc : ℕ} (hacc : acc < 2 ^ (8 * i)) :
    Reads (leWord k i acc) (leBytes k v) (acc + v % 256 ^ k * 2 ^ (8 * i)) := by
  induction k generalizing v i acc with
  | zero =>
      rw [pow_zero, Nat.mod_one, Nat.zero_mul]
      exact Reads.pure acc
  | succ k ih =>
      have hbyte : (UInt8.ofNat (v % 256)).toNat = v % 256 :=
        toNat_ofNat_of_lt (Nat.mod_lt _ (by decide))
      have hpow : 2 ^ (8 * (i + 1)) = 2 ^ (8 * i) * 256 := by
        rw [Nat.mul_add, pow_add]
        rfl
      have hnext : acc + v % 256 * 2 ^ (8 * i) < 2 ^ (8 * (i + 1)) := by
        have hle : v % 256 * 2 ^ (8 * i) ≤ 255 * 2 ^ (8 * i) := Nat.mul_le_mul_right _ (by omega)
        omega
      have hvalue : acc + v % 256 * 2 ^ (8 * i) + v / 256 % 256 ^ k * 2 ^ (8 * (i + 1)) =
          acc + v % 256 ^ (k + 1) * 2 ^ (8 * i) := by
        rw [hpow, pow_succ', Nat.mod_mul]
        ring
      refine (reads_u8 _).bind_cons ?_
      rw [hbyte, or_shiftLeft_of_lt hacc, ← hvalue]
      exact ih (v / 256) (i + 1) hnext

theorem reads_u16le (v : ℕ) : Reads u16le (leBytes 2 v) (v % 2 ^ 16) := reads_take_leBytes 2 v "u16"

theorem reads_u32le (v : ℕ) : Reads u32le (leBytes 4 v) (v % 2 ^ 32) := reads_take_leBytes 4 v "u32"

theorem reads_u64le (v : ℕ) : Reads u64le (leBytes 8 v) (v % 2 ^ 64) := by
  simpa [u64le] using @reads_leWord 8 v 0 0 (by decide)

theorem reads_u16be (v : ℕ) : Reads u16be (beBytes 2 v) (v % 2 ^ 16) := by
  simpa [u16be] using reads_beWord 2 v 0

theorem reads_u32be (v : ℕ) : Reads u32be (beBytes 4 v) (v % 2 ^ 32) := by
  simpa [u32be] using reads_beWord 4 v 0

theorem reads_u64be (v : ℕ) : Reads u64be (beBytes 8 v) (v % 2 ^ 64) := by
  simpa [u64be] using reads_beWord 8 v 0

theorem reads_varuint32 {v : ℕ} (h : v < 2 ^ 32) : Reads varuint32 (leb128 4 v) v :=
  reads_leb128 (takesGroups_const reads_u8) (by omega) h (by omega)

theorem reads_varuint64 {v : ℕ} (h : v < 2 ^ 64) : Reads varuint64 (leb128 9 v) v :=
  reads_leb128 (takesGroups_const reads_u8) (by omega) h (by omega)

theorem reads_varuint128 {v : ℕ} (h : v < 2 ^ 128) : Reads varuint128 (leb128 18 v) v :=
  reads_leb128 (takesGroups_const reads_u8) (by omega) h (by omega)

/-- A short varint is a long one, too. -/
theorem reads_varuint64_leb128 {v : ℕ} (h : v < 2 ^ 32) : Reads varuint64 (leb128 4 v) v :=
  reads_leb128 (takesGroups_const reads_u8) (by omega) (by omega) (by omega)

/-- The zigzag word of a two's-complement word gives its signed reading back. -/
theorem reads_zigzag32 (z : ℤ) :
    Reads zigzag32 (leb128 4 (encodeZigZag 32 (toUnsigned 32 z))) (toSigned 32 (toUnsigned 32 z)) := by
  have hlt := toUnsigned_lt 32 z
  have hread := (reads_varuint32 (encodeZigZag_lt (by decide) hlt)).map
    (f := fun raw ↦ toSigned 32 (decodeZigZag 32 raw))
  rwa [decodeZigZag_encodeZigZag (by decide) hlt] at hread

theorem reads_zigzag64 (z : ℤ) :
    Reads zigzag64 (leb128 9 (encodeZigZag 64 (toUnsigned 64 z))) (toSigned 64 (toUnsigned 64 z)) := by
  have hlt := toUnsigned_lt 64 z
  have hread := (reads_varuint64 (encodeZigZag_lt (by decide) hlt)).map
    (f := fun raw ↦ toSigned 64 (decodeZigZag 64 raw))
  rwa [decodeZigZag_encodeZigZag (by decide) hlt] at hread

/-! ## What the readers yield -/

theorem yields_byte : Yields (UInt8.toNat <$> u8) (· < 2 ^ 8) :=
  Yields.map ((Yields.trivial _).mono fun b _ ↦ b.toNat_lt)

theorem yields_take_leValue (k : ℕ) (short : Cursor → String) :
    Yields (leValue <$> Reader.take k short) (· < 256 ^ k) := by
  refine Yields.map ((Yields.take k short).mono fun bytes hbytes ↦ ?_)
  have hlt := leValue_lt bytes
  rwa [hbytes] at hlt

theorem yields_beWord (k : ℕ) {i acc : ℕ} (hacc : acc < 2 ^ (8 * i)) :
    Yields (beWord k acc) (· < 2 ^ (8 * (i + k))) := by
  induction k generalizing i acc with
  | zero => exact Yields.pure hacc
  | succ k ih =>
      refine Yields.bind_any fun b ↦ ?_
      have hb := b.toNat_lt
      have hpow : 2 ^ (8 * (i + 1)) = 2 ^ (8 * i) * 2 ^ 8 := by rw [Nat.mul_add, pow_add]
      have hnext : (acc <<< 8) ||| b.toNat < 2 ^ (8 * (i + 1)) := by
        refine Nat.or_lt_two_pow ?_ ?_
        · rw [Nat.shiftLeft_eq, hpow]
          exact Nat.mul_lt_mul_of_pos_right hacc (Nat.two_pow_pos 8)
        · exact hb.trans_le (Nat.pow_le_pow_right (by decide) (by omega))
      have h := ih hnext
      rwa [Nat.add_assoc, Nat.add_comm 1 k] at h

theorem yields_leWord (k i : ℕ) {acc : ℕ} (hacc : acc < 2 ^ (8 * i)) :
    Yields (leWord k i acc) (· < 2 ^ (8 * (i + k))) := by
  induction k generalizing i acc with
  | zero => exact Yields.pure hacc
  | succ k ih =>
      refine Yields.bind_any fun b ↦ ?_
      have hb := b.toNat_lt
      have hpow : 2 ^ (8 * (i + 1)) = 2 ^ 8 * 2 ^ (8 * i) := by
        rw [Nat.mul_add, pow_add, Nat.mul_comm]
      have hnext : acc ||| (b.toNat <<< (8 * i)) < 2 ^ (8 * (i + 1)) := by
        refine Nat.or_lt_two_pow ?_ ?_
        · exact hacc.trans_le (Nat.pow_le_pow_right (by decide) (by omega))
        · rw [Nat.shiftLeft_eq, hpow]
          exact Nat.mul_lt_mul_of_pos_right hb (Nat.two_pow_pos _)
      have h := ih (i + 1) hnext
      rwa [Nat.add_assoc, Nat.add_comm 1 k] at h

theorem yields_u16le : Yields u16le (· < 2 ^ 16) := yields_take_leValue 2 _

theorem yields_u32le : Yields u32le (· < 2 ^ 32) := yields_take_leValue 4 _

theorem yields_u64le : Yields u64le (· < 2 ^ 64) := yields_leWord 8 0 (by decide)

theorem yields_u16be : Yields u16be (· < 2 ^ 16) := yields_beWord 2 (i := 0) (by decide)

theorem yields_u32be : Yields u32be (· < 2 ^ 32) := yields_beWord 4 (i := 0) (by decide)

theorem yields_u64be : Yields u64be (· < 2 ^ 64) := yields_beWord 8 (i := 0) (by decide)

theorem yields_varuint32 : Yields varuint32 (· < 2 ^ 32) :=
  yields_readLeb128 _ _ 32 5 0 (Nat.two_pow_pos 32)

theorem yields_varuint64 : Yields varuint64 (· < 2 ^ 64) :=
  yields_readLeb128 _ _ 64 10 0 (Nat.two_pow_pos 64)

theorem yields_varuint128 : Yields varuint128 (· < 2 ^ 128) :=
  yields_readLeb128 _ _ 128 19 0 (Nat.two_pow_pos 128)

end ProtoDefReader

end BedrockProtocol
