import BedrockProtocol.Lib.Words

/-!
# xxHash64

`XxHash64.cpp`: the hash that names a blob.  Arithmetic is modulo 2 ^ 64.
-/

namespace BedrockProtocol

namespace XxHash64

def prime1 : UInt64 := 11400714785074694791

def prime2 : UInt64 := 14029467366897019727

def prime3 : UInt64 := 1609587929392839161

def prime4 : UInt64 := 9650029242287828579

def prime5 : UInt64 := 2870177450012600261

/-- `std::rotl`, for a shift that is neither 0 nor 64. -/
def rotl (value shift : UInt64) : UInt64 := (value <<< shift) ||| (value >>> (64 - shift))

def readU32LE (data : List UInt8) : UInt64 := UInt64.ofNat (leValue (data.take 4))

def readU64LE (data : List UInt8) : UInt64 := UInt64.ofNat (leValue (data.take 8))

def round (accumulator input : UInt64) : UInt64 :=
  rotl (accumulator + input * prime2) 31 * prime1

def mergeRound (accumulator value : UInt64) : UInt64 :=
  (accumulator ^^^ round 0 value) * prime1 + prime4

/-- The loop over stripes of 32 bytes, with what is left of the data; `stripes`
bounds the turns. -/
def stripeLoop : ℕ → UInt64 × UInt64 × UInt64 × UInt64 → List UInt8 →
    (UInt64 × UInt64 × UInt64 × UInt64) × List UInt8
  | 0, lanes, data => (lanes, data)
  | stripes + 1, (v1, v2, v3, v4), data =>
      if data.length < 32 then ((v1, v2, v3, v4), data)
      else
        stripeLoop stripes
          (round v1 (readU64LE data), round v2 (readU64LE (data.drop 8)),
            round v3 (readU64LE (data.drop 16)), round v4 (readU64LE (data.drop 24)))
          (data.drop 32)

/-- The loop over words of eight bytes. -/
def wordLoop : ℕ → UInt64 → List UInt8 → UInt64 × List UInt8
  | 0, hash, data => (hash, data)
  | words + 1, hash, data =>
      if data.length < 8 then (hash, data)
      else
        wordLoop words (rotl (hash ^^^ round 0 (readU64LE data)) 27 * prime1 + prime4)
          (data.drop 8)

/-- The part for one word of four bytes. -/
def halfWord (hash : UInt64) (data : List UInt8) : UInt64 × List UInt8 :=
  if data.length < 4 then (hash, data)
  else (rotl (hash ^^^ readU32LE data * prime1) 23 * prime2 + prime3, data.drop 4)

/-- The loop over single bytes. -/
def byteLoop (hash : UInt64) (data : List UInt8) : UInt64 :=
  data.foldl (fun hash byte ↦ rotl (hash ^^^ byte.toUInt64 * prime5) 11 * prime1) hash

def avalanche (hash : UInt64) : UInt64 :=
  let hash := (hash ^^^ (hash >>> 33)) * prime2
  let hash := (hash ^^^ (hash >>> 29)) * prime3
  hash ^^^ (hash >>> 32)

def stripes (data : List UInt8) (seed : UInt64) : UInt64 × List UInt8 :=
  if data.length < 32 then (seed + prime5, data)
  else
    let ((v1, v2, v3, v4), data) := stripeLoop data.length
      (seed + prime1 + prime2, seed + prime2, seed, seed - prime1) data
    let hash := rotl v1 1 + rotl v2 7 + rotl v3 12 + rotl v4 18
    (mergeRound (mergeRound (mergeRound (mergeRound hash v1) v2) v3) v4, data)

end XxHash64

open XxHash64 in
def xxHash64 (data : List UInt8) (seed : UInt64 := 0) : UInt64 :=
  let (hash, rest) := stripes data seed
  let (hash, rest) := wordLoop rest.length (hash + UInt64.ofNat data.length) rest
  let (hash, rest) := halfWord hash rest
  avalanche (byteLoop hash rest)

end BedrockProtocol
