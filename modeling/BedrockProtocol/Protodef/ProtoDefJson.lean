import BedrockProtocol.Protodef.ProtoDefValue
import Mathlib.Data.List.DropRight

/-!
# The JSON printer and parser

`ProtoDefJson.hpp`: a printer without spaces and a recursive-descent parser over
bytes.  The parser is more lenient than the grammar (numbers may have leading
zeros, strings may hold control characters) and turns an object whose only key
is `$bytes` into the byte string that the printer writes so.
-/

namespace BedrockProtocol

namespace ProtoDefJson

/-! ## The printer -/

/-- The two hexadecimal digits of a byte. -/
def hexByte (b : UInt8) : Text :=
  let digits := txt "0123456789abcdef"
  [digits.getD (b.toNat / 16) 0, digits.getD (b.toNat % 16) 0]

/-- One character of a quoted string. -/
def escape (c : UInt8) : Text :=
  if c = 0x22 then txt "\\\""
  else if c = 0x5c then txt "\\\\"
  else if c = 0x08 then txt "\\b"
  else if c = 0x0c then txt "\\f"
  else if c = 0x0a then txt "\\n"
  else if c = 0x0d then txt "\\r"
  else if c = 0x09 then txt "\\t"
  else if c < 0x20 then txt "\\u" ++ txt "00" ++ hexByte c
  else [c]

def quote (input : Text) : Text := 0x22 :: input.flatMap escape ++ [0x22]

def hex (bytes : List UInt8) : Text := bytes.flatMap hexByte

/-- Seventeen significant digits of a positive fraction and the exponent of the first. -/
def significantDigits (numerator denominator : ℕ) : ℕ × ℤ :=
  let exponent : ℤ := if denominator ≤ numerator then Nat.log 10 (numerator / denominator)
    else -Nat.clog 10 ((denominator + numerator - 1) / numerator)
  let digits := roundDiv (numerator * 10 ^ (16 - exponent).toNat)
    (denominator * 10 ^ (exponent - 16).toNat)
  if digits = 10 ^ 17 then (10 ^ 16, exponent + 1) else (digits, exponent)

def dropTrailingZeros (digits : Text) : Text := digits.rdropWhile (· = 0x30)

/-- A stream with `std::setprecision(17)`: the conversion `%.17g`. -/
def formatDouble (bits : UInt64) : Text :=
  let sign := if 2 ^ 63 ≤ bits.toNat then txt "-" else []
  let (numerator, denominator) := magnitudeFraction bits
  if isNaN bits then sign ++ txt "nan"
  else if !isFinite bits then sign ++ txt "inf"
  else if numerator = 0 then sign ++ txt "0"
  else
    let (significant, exponent) := significantDigits numerator denominator
    let digits := decimal significant
    let withFraction (whole fraction : Text) : Text :=
      if fraction = [] then whole else whole ++ txt "." ++ fraction
    if -4 ≤ exponent ∧ exponent < 0 then
      sign ++ txt "0." ++ List.replicate (-exponent - 1).toNat 0x30 ++ dropTrailingZeros digits
    else if 0 ≤ exponent ∧ exponent < 17 then
      sign ++ withFraction (digits.take (exponent.toNat + 1))
        (dropTrailingZeros (digits.drop (exponent.toNat + 1)))
    else
      let magnitude := decimal exponent.natAbs
      sign ++ withFraction (digits.take 1) (dropTrailingZeros (digits.drop 1)) ++ txt "e" ++
        (if exponent < 0 then txt "-" else txt "+") ++
        (if magnitude.length < 2 then 0x30 :: magnitude else magnitude)

mutual

/-- The printed value.  Fields come in the order of the list, the code's in that of its hash
map. -/
def stringify : ProtoDefValue → Text
  | .null => txt "null"
  | .bool value => if value then txt "true" else txt "false"
  | .int value => decimalInt value
  | .uint value => decimal value
  | .double bits => formatDouble bits
  | .string value => quote value
  | .bytes value => txt "\x7b\"$bytes\":" ++ quote (hex value) ++ [0x7d]
  | .array items => 0x5b :: stringifyItems items ++ [0x5d]
  | .object fields => 0x7b :: stringifyFields fields ++ [0x7d]

def stringifyItems : List ProtoDefValue → Text
  | [] => []
  | [item] => stringify item
  | item :: next :: items => stringify item ++ 0x2c :: stringifyItems (next :: items)

def stringifyFields : List (Text × ProtoDefValue) → Text
  | [] => []
  | [(key, child)] => quote key ++ 0x3a :: stringify child
  | (key, child) :: next :: fields =>
      quote key ++ 0x3a :: stringify child ++ 0x2c :: stringifyFields (next :: fields)

end

/-! ## The parser -/

/-- The byte at the position, without consuming it. -/
def peek : Reader (Option UInt8) := fun c ↦ .ok (c.rest.head?, c)

/-- Consume bytes while `p` holds, and return them. -/
def takeWhile (p : UInt8 → Bool) : Reader Text := fun c ↦
  let taken := c.rest.takeWhile p
  .ok (taken, ⟨c.offset + taken.length, c.rest.dropWhile p⟩)

def skipWhitespace : Reader Unit := do
  let _ ← takeWhile isSpace

/-- Consume one byte that `peek` has seen. -/
def advance : Reader Unit := do
  let _ ← Reader.byte fun _ ↦ "ProtoDefJson unexpected end"

def parseLiteral (literal : Text) (value : ProtoDefValue) : Reader ProtoDefValue := fun c ↦
  if c.rest.take literal.length = literal then
    .ok (value, ⟨c.offset + literal.length, c.rest.drop literal.length⟩)
  else .error "ProtoDefJson invalid literal"

/-! ### Numbers -/

/-- The optional parts of a number: a fraction and an exponent. -/
structure NumberParts where
  negative : Bool
  digits : Text
  fraction : Option Text
  exponent : Option (Bool × Text)

def readFraction : Reader (Option Text) := do
  if (← peek) = some 0x2e then
    advance
    let digits ← takeWhile isDigit
    pure (some digits)
  else pure none

def readExponent : Reader (Option (Bool × Text)) := do
  let c ← peek
  if c = some 0x65 ∨ c = some 0x45 then
    advance
    let sign ← peek
    if sign = some 0x2b ∨ sign = some 0x2d then
      advance
      let digits ← takeWhile isDigit
      pure (some (sign = some 0x2d, digits))
    else
      let digits ← takeWhile isDigit
      pure (some (false, digits))
  else pure none

def readNumberParts : Reader NumberParts := do
  let negative := (← peek) = some 0x2d
  if negative then advance
  let digits ← takeWhile isDigit
  let fraction ← readFraction
  let exponent ← readExponent
  pure ⟨negative, digits, fraction, exponent⟩

/-- `std::strtod`; without a digit in the mantissa there is nothing to convert. -/
def strtod (parts : NumberParts) : UInt64 :=
  let fraction := parts.fraction.getD []
  if parts.digits = [] ∧ fraction = [] then 0
  else
    let mantissa := decimalValue (parts.digits ++ fraction)
    let exponent : ℤ := match parts.exponent with
      | none => 0
      | some (true, digits) => -(decimalValue digits : ℤ)
      | some (false, digits) => decimalValue digits
    let shift : ℤ := exponent - fraction.length
    UInt64.ofNat (signBits parts.negative +
      fractionBits (mantissa * 10 ^ shift.toNat) (10 ^ (-shift).toNat))

/-- `std::stoll` and `std::stoull` on a numeral without fraction and exponent. -/
def integerValue (parts : NumberParts) : Except String ProtoDefValue :=
  if parts.negative then
    if parts.digits = [] ∨ 2 ^ 63 < decimalValue parts.digits then .error "stoll"
    else .ok (.int (-(decimalValue parts.digits : ℤ)))
  else if 2 ^ 64 - 1 < decimalValue parts.digits then .error "stoull"
  else .ok (.uint (decimalValue parts.digits))

def parseNumber : Reader ProtoDefValue := do
  let parts ← readNumberParts
  if parts.fraction.isSome ∨ parts.exponent.isSome then pure (.double (strtod parts))
  else integerValue parts

/-! ### Strings -/

def hexDigit (c : UInt8) : Option ℕ :=
  if 0x30 ≤ c ∧ c ≤ 0x39 then some (c.toNat - 0x30)
  else if 0x61 ≤ c ∧ c ≤ 0x66 then some (c.toNat - 0x61 + 10)
  else if 0x41 ≤ c ∧ c ≤ 0x46 then some (c.toNat - 0x41 + 10)
  else none

def parseHexCodeUnit : Reader ℕ := do
  let digits ← Reader.take 4 fun _ ↦ "ProtoDefJson incomplete unicode escape"
  match digits.mapM hexDigit with
  | some values => pure (values.foldl (fun value digit ↦ (value <<< 4) ||| digit) 0)
  | none => throw "ProtoDefJson invalid unicode escape"

def parseUnicodeEscape : Reader ℕ := do
  let first ← parseHexCodeUnit
  if 0xd800 ≤ first ∧ first ≤ 0xdbff then
    let marker ← Reader.take 2 fun _ ↦ "ProtoDefJson missing low surrogate"
    if marker ≠ txt "\\u" then throw "ProtoDefJson missing low surrogate"
    else
      let second ← parseHexCodeUnit
      if second < 0xdc00 ∨ 0xdfff < second then throw "ProtoDefJson invalid low surrogate"
      else pure (0x10000 + ((first - 0xd800) <<< 10) + (second - 0xdc00))
  else if 0xdc00 ≤ first ∧ first ≤ 0xdfff then throw "ProtoDefJson unexpected low surrogate"
  else pure first

/-- The UTF-8 bytes of a code point. -/
def utf8 (value : ℕ) : Text :=
  if value ≤ 0x7f then [UInt8.ofNat value]
  else if value ≤ 0x7ff then
    [UInt8.ofNat (0xc0 ||| (value >>> 6)), UInt8.ofNat (0x80 ||| (value &&& 0x3f))]
  else if value ≤ 0xffff then
    [UInt8.ofNat (0xe0 ||| (value >>> 12)), UInt8.ofNat (0x80 ||| ((value >>> 6) &&& 0x3f)),
      UInt8.ofNat (0x80 ||| (value &&& 0x3f))]
  else
    [UInt8.ofNat (0xf0 ||| (value >>> 18)), UInt8.ofNat (0x80 ||| ((value >>> 12) &&& 0x3f)),
      UInt8.ofNat (0x80 ||| ((value >>> 6) &&& 0x3f)), UInt8.ofNat (0x80 ||| (value &&& 0x3f))]

/-- The bytes an escape stands for, after its backslash. -/
def parseEscape : Reader Text := do
  let e ← Reader.byte fun _ ↦ "ProtoDefJson invalid escape"
  if e = 0x22 ∨ e = 0x5c ∨ e = 0x2f then pure [e]
  else if e = 0x62 then pure [0x08]
  else if e = 0x66 then pure [0x0c]
  else if e = 0x6e then pure [0x0a]
  else if e = 0x72 then pure [0x0d]
  else if e = 0x74 then pure [0x09]
  else if e = 0x75 then utf8 <$> parseUnicodeEscape
  else throw "ProtoDefJson unsupported escape"

/-- The rest of a string, up to its closing quote. -/
def stringBody : ℕ → Reader Text
  | 0 => throw "ProtoDefJson unterminated string"
  | fuel + 1 => do
      let c ← Reader.byte fun _ ↦ "ProtoDefJson unterminated string"
      if c = 0x22 then pure []
      else if c ≠ 0x5c then
        let rest ← stringBody fuel
        pure (c :: rest)
      else
        let escaped ← parseEscape
        let rest ← stringBody fuel
        pure (escaped ++ rest)

/-- A string; every turn of its loop takes a byte. -/
def parseString : Reader Text := do
  if (← peek) ≠ some 0x22 then throw "ProtoDefJson expected string"
  else
    advance
    stringBody ((← Reader.remaining) + 1)

/-! ### Values -/

def unhex : Text → Except String (List UInt8)
  | [] => .ok []
  | [_] => .error "ProtoDefJson bytes hex length must be even"
  | hi :: lo :: rest =>
      match hexDigit hi, hexDigit lo with
      | some hi, some lo => do
          let bytes ← unhex rest
          pure (UInt8.ofNat ((hi <<< 4) ||| lo) :: bytes)
      | _, _ => .error "ProtoDefJson invalid bytes hex"

/-- `unhex` checks the length of the whole text first. -/
def bytesOfHex (text : Text) : Except String (List UInt8) :=
  if text.length % 2 ≠ 0 then .error "ProtoDefJson bytes hex length must be even"
  else unhex text

/-- An object, or the bytes that its only key `$bytes` stands for. -/
def finishObject (fields : List (Text × ProtoDefValue)) : Except String ProtoDefValue :=
  match fields with
  | [(key, .string text)] =>
      if key = txt "$bytes" then .bytes <$> bytesOfHex text else .ok (.object fields)
  | _ => .ok (.object fields)

/-- The elements of an array after its bracket; `parseValue` reads one. -/
def arrayItems (parseValue : Reader ProtoDefValue) : ℕ → Reader (List ProtoDefValue)
  | 0 => throw "ProtoDefJson unterminated array"
  | fuel + 1 => do
      let value ← parseValue
      skipWhitespace
      let c ← peek
      if c = none then throw "ProtoDefJson unterminated array"
      else if c = some 0x5d then
        advance
        pure [value]
      else if c ≠ some 0x2c then throw "ProtoDefJson expected comma"
      else
        advance
        let rest ← arrayItems parseValue fuel
        pure (value :: rest)

/-- The fields of an object after its brace, assigned one after the other. -/
def objectFields (parseValue : Reader ProtoDefValue) :
    ℕ → List (Text × ProtoDefValue) → Reader (List (Text × ProtoDefValue))
  | 0, _ => throw "ProtoDefJson unterminated object"
  | fuel + 1, fields => do
      skipWhitespace
      let key ← parseString
      skipWhitespace
      if (← peek) ≠ some 0x3a then throw "ProtoDefJson expected colon"
      else
        advance
        let value ← parseValue
        let fields := ProtoDefValue.assign key value fields
        skipWhitespace
        let c ← peek
        if c = none then throw "ProtoDefJson unterminated object"
        else if c = some 0x7d then
          advance
          pure fields
        else if c ≠ some 0x2c then throw "ProtoDefJson expected comma"
        else
          advance
          objectFields parseValue fuel fields

def parseArray (parseValue : Reader ProtoDefValue) : Reader ProtoDefValue := do
  advance
  skipWhitespace
  if (← peek) = some 0x5d then
    advance
    pure (.array [])
  else
    let items ← arrayItems parseValue ((← Reader.remaining) + 1)
    pure (.array items)

def parseObject (parseValue : Reader ProtoDefValue) : Reader ProtoDefValue := do
  advance
  skipWhitespace
  if (← peek) = some 0x7d then
    advance
    pure (.object [])
  else
    let fields ← objectFields parseValue ((← Reader.remaining) + 1) []
    finishObject fields

/-- A value.  Every level of nesting takes a byte, so the length of the text
bounds the levels. -/
def parseValue : ℕ → Reader ProtoDefValue
  | 0 => throw "ProtoDefJson unexpected end"
  | levels + 1 => do
      skipWhitespace
      match ← peek with
      | none => throw "ProtoDefJson unexpected end"
      | some c =>
          if c = 0x22 then .string <$> parseString
          else if c = 0x7b then parseObject (parseValue levels)
          else if c = 0x5b then parseArray (parseValue levels)
          else if c = 0x74 then parseLiteral (txt "true") (.bool true)
          else if c = 0x66 then parseLiteral (txt "false") (.bool false)
          else if c = 0x6e then parseLiteral (txt "null") .null
          else if c = 0x2d ∨ isDigit c then parseNumber
          else throw "ProtoDefJson unexpected character"

def parseDocument : Reader ProtoDefValue := do
  let value ← parseValue ((← Reader.remaining) + 1)
  skipWhitespace
  if (← Reader.remaining) ≠ 0 then throw "ProtoDefJson trailing characters"
  else pure value

def parse (json : Text) : Except String ProtoDefValue :=
  Prod.fst <$> parseDocument (Cursor.start json)

end ProtoDefJson

end BedrockProtocol
