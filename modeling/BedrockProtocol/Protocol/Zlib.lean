import BedrockProtocol.Lib.Words

/-!
# Raw deflate streams

What the codecs use of zlib: `deflate` turns a whole input into one raw stream,
`inflate` returns the data of the stream its input starts with and looks at
nothing behind the end-of-stream marker.  The library is a parameter; the codecs
rely on `Lawful` only.  `stored` is the encoder of compression level zero, whose
streams are chains of stored blocks.
-/

namespace BedrockProtocol

/-- How the loop over `inflate` ends without a complete stream. -/
inductive InflateError
  | failed
  | incomplete
  deriving DecidableEq, Repr

structure Zlib where
  deflate : (compressionLevel : ℤ) → List UInt8 → List UInt8
  inflate : List UInt8 → Except InflateError (List UInt8)

namespace Zlib

/-- The levels `deflateInit2` accepts; `-1` is `Z_DEFAULT_COMPRESSION`. -/
def ValidLevel (compressionLevel : ℤ) : Prop := -1 ≤ compressionLevel ∧ compressionLevel ≤ 9

instance (compressionLevel : ℤ) : Decidable (ValidLevel compressionLevel) :=
  inferInstanceAs (Decidable (_ ∧ _))

/-- Inflating a deflated input, whatever follows the stream, gives the input. -/
def Lawful (zlib : Zlib) : Prop :=
  ∀ level, ValidLevel level → ∀ input suffix,
    zlib.inflate (zlib.deflate level input ++ suffix) = .ok input

/-- The part of a buffer that `avail_in`, a 32-bit count, covers. -/
def availIn (input : List UInt8) : List UInt8 := input.take (input.length % 2 ^ 32)

theorem availIn_of_lt {input : List UInt8} (h : input.length < 2 ^ 32) : availIn input = input := by
  rw [availIn, Nat.mod_eq_of_lt h, List.take_length]

theorem Lawful.inflate_deflate {zlib : Zlib} (hz : zlib.Lawful) {level : ℤ}
    (hlevel : ValidLevel level) (input : List UInt8) :
    zlib.inflate (zlib.deflate level input) = .ok input := by
  simpa using hz level hlevel input []

/-- A stream is never empty: an empty one would inflate like any other. -/
theorem Lawful.deflate_ne_nil {zlib : Zlib} (hz : zlib.Lawful) {level : ℤ}
    (hlevel : ValidLevel level) (input : List UInt8) : zlib.deflate level input ≠ [] := by
  intro hnil
  have hall (suffix : List UInt8) : zlib.inflate suffix = .ok input := by
    simpa [hnil] using hz level hlevel input suffix
  have hother := hz.inflate_deflate hlevel (0 :: input)
  rw [hall] at hother
  have := congrArg List.length (Except.ok.inj hother)
  simp at this

/-! ## Stored blocks -/

/-- A stored block: the final bit, the length and its complement, the bytes. -/
def storedBlock (final : Bool) (bytes : List UInt8) : List UInt8 :=
  (if final then 1 else 0) :: (leBytes 2 bytes.length ++ leBytes 2 (65535 - bytes.length) ++ bytes)

/-- Blocks of at most 65535 bytes; the first argument bounds their number. -/
def storedDeflate : ℕ → List UInt8 → List UInt8
  | 0, input => storedBlock true input
  | fuel + 1, input =>
      if input.length ≤ 65535 then storedBlock true input
      else storedBlock false (input.take 65535) ++ storedDeflate fuel (input.drop 65535)

def readStoredBlock : Reader (Bool × List UInt8) := do
  let header ← Reader.byte fun _ ↦ "header"
  let length ← Reader.take 2 fun _ ↦ "length"
  let complement ← Reader.take 2 fun _ ↦ "complement"
  let bytes ← Reader.take (leValue length) fun _ ↦ "bytes"
  if 1 < header.toNat ∨ leValue length + leValue complement ≠ 65535 then throw "block"
  else pure (header = 1, bytes)

def readStoredBlocks : ℕ → Reader (List UInt8)
  | 0 => throw "fuel"
  | fuel + 1 => do
      let block ← readStoredBlock
      if block.1 then pure block.2
      else
        let rest ← readStoredBlocks fuel
        pure (block.2 ++ rest)

/-- Compression level zero, and an `inflate` that knows stored blocks. -/
def stored : Zlib where
  deflate := fun _ input ↦ storedDeflate input.length input
  inflate := fun input ↦
    match readStoredBlocks input.length (Cursor.start input) with
    | .ok (output, _) => .ok output
    | .error _ => .error .failed

theorem reads_storedBlock (final : Bool) {bytes : List UInt8} (h : bytes.length ≤ 65535) :
    Reads readStoredBlock (storedBlock final bytes) (final, bytes) := by
  have hlength : leValue (leBytes 2 bytes.length) = bytes.length :=
    leValue_leBytes_of_lt (by omega)
  have hcomplement : leValue (leBytes 2 (65535 - bytes.length)) = 65535 - bytes.length :=
    leValue_leBytes_of_lt (by omega)
  rw [storedBlock, List.append_assoc]
  refine (Reads.byte _).bind_cons ?_
  refine (Reads.take _ (length_leBytes 2 _)).bind ((Reads.take _ (length_leBytes 2 _)).bind ?_)
  refine (Reads.take bytes hlength.symm).bind_last ?_
  rw [hlength, hcomplement, if_neg (by cases final <;> simp <;> omega)]
  cases final
  · exact Reads.pure _
  · exact Reads.pure _

theorem length_storedBlock_pos (final : Bool) (bytes : List UInt8) :
    0 < (storedBlock final bytes).length := by
  simp [storedBlock]

theorem reads_lastBlock {input : List UInt8} (hshort : input.length ≤ 65535) (turns : ℕ)
    (hturns : (storedBlock true input).length ≤ turns) :
    Reads (readStoredBlocks turns) (storedBlock true input) input := by
  have hpos := length_storedBlock_pos true input
  obtain ⟨turns, rfl⟩ : ∃ t, turns = t + 1 := ⟨turns - 1, by omega⟩
  exact (reads_storedBlock true hshort).bind_last (Reads.pure input)

theorem reads_storedDeflate (fuel : ℕ) (input : List UInt8) (h : input.length ≤ 65535 * (fuel + 1))
    (turns : ℕ) (hturns : (storedDeflate fuel input).length ≤ turns) :
    Reads (readStoredBlocks turns) (storedDeflate fuel input) input := by
  induction fuel generalizing input turns with
  | zero => exact reads_lastBlock (by omega) turns hturns
  | succ fuel ih =>
      unfold storedDeflate at hturns ⊢
      split at hturns
      · rename_i hshort
        rw [if_pos hshort]
        exact reads_lastBlock hshort turns hturns
      · rename_i hlong
        rw [if_neg hlong]
        have hpos := length_storedBlock_pos false (input.take 65535)
        rw [List.length_append] at hturns
        obtain ⟨turns, rfl⟩ : ∃ t, turns = t + 1 := ⟨turns - 1, by omega⟩
        have hfirst : Reads readStoredBlock (storedBlock false (input.take 65535)) _ :=
          reads_storedBlock false (by simp)
        have hrest := ih (input.drop 65535) (by rw [List.length_drop]; omega) turns (by omega)
        refine hfirst.bind (hrest.bind_last ?_)
        rw [List.take_append_drop]
        exact Reads.pure input

theorem lawful_stored : stored.Lawful := by
  intro level _ input suffix
  have hread := reads_storedDeflate input.length input (by omega)
    (storedDeflate input.length input ++ suffix).length (by simp)
  simp only [stored, hread.start suffix]

end Zlib

end BedrockProtocol
