import BedrockProtocol.Lib.Text
import Mathlib.Data.List.DropRight

/-!
# Schemas as text

A schema stays JSON text: encoder and decoder search it for the fields they
need.  `ProtoDefEncoder.hpp` and `ProtoDefDecoder.hpp` hold the same search
functions, each in its own copy; they are modelled once.  Positions are offsets
into the text, and `none` is `std::string::npos`.
-/

namespace BedrockProtocol

namespace SchemaText

/-! ## Strings -/

def trim (s : Text) : Text := (s.dropWhile isSpace).rdropWhile isSpace

def startsWith (s literal : Text) : Bool := literal.isPrefixOf s

/-- `s.find(c, pos)`. -/
def find (s : Text) (c : UInt8) (pos : ℕ) : Option ℕ :=
  ((s.drop pos).findIdx? fun d ↦ d = c).map (· + pos)

/-- `s.substr(pos, len)` from a position in the text. -/
def substr (s : Text) (pos len : ℕ) : Text := (s.drop pos).take len

def isJsonString (s : Text) : Bool :=
  2 ≤ s.length ∧ s.head? = some 0x22 ∧ s.getLast? = some 0x22

def unquote (s : Text) : Text := if isJsonString s then substr s 1 (s.length - 2) else s

/-- The first position at or after `pos` whose byte does not satisfy `p`. -/
def skip (p : UInt8 → Bool) (s : Text) (pos : ℕ) : ℕ := pos + ((s.drop pos).takeWhile p).length

/-! ## Brackets and values -/

/-- The loop of `findStringEnd` at position `i`. -/
def stringEndFrom : Text → ℕ → Bool → Option ℕ
  | [], _, _ => none
  | _ :: rest, i, true => stringEndFrom rest (i + 1) false
  | c :: rest, i, false =>
      if c = 0x5c then stringEndFrom rest (i + 1) true
      else if c = 0x22 then some i
      else stringEndFrom rest (i + 1) false

def findStringEnd (s : Text) (opening : ℕ) : Option ℕ :=
  stringEndFrom (s.drop (opening + 1)) (opening + 1) false

/-- Where the loop of `findMatching` is: the nesting depth, and whether in a string and right
after a backslash there. -/
structure Nesting where
  depth : ℤ := 0
  inString : Bool := false
  esc : Bool := false

/-- The loop of `findMatching` at position `i`. -/
def matchingFrom (left right : UInt8) : Text → ℕ → Nesting → Option ℕ
  | [], _, _ => none
  | c :: rest, i, n =>
      if n.inString then
        let n :=
          if n.esc then { n with esc := false }
          else if c = 0x5c then { n with esc := true }
          else if c = 0x22 then { n with inString := false }
          else n
        matchingFrom left right rest (i + 1) n
      else if c = 0x22 then matchingFrom left right rest (i + 1) { n with inString := true }
      else
        let depth := if c = left then n.depth + 1 else n.depth
        if c = right then
          if depth - 1 = 0 then some i
          else matchingFrom left right rest (i + 1) { n with depth := depth - 1 }
        else matchingFrom left right rest (i + 1) { n with depth := depth }

def findMatching (s : Text) (opening : ℕ) (left right : UInt8) : Option ℕ :=
  matchingFrom left right (s.drop opening) opening {}

def findJsonValueEnd (s : Text) (valueStart objectEnd : ℕ) : Option ℕ :=
  if objectEnd ≤ valueStart then none
  else
    match s[valueStart]? with
    | some 0x22 => (findStringEnd s valueStart).map (· + 1)
    | some 0x5b => (findMatching s valueStart 0x5b 0x5d).map (· + 1)
    | some 0x7b => (findMatching s valueStart 0x7b 0x7d).map (· + 1)
    | _ =>
        let value := (substr s valueStart (objectEnd - valueStart)).takeWhile fun c ↦ c ≠ 0x2c
        some (valueStart + (value.rdropWhile isSpace).length)

/-! ## Fields of an object -/

/-- The loop of `readJsonValueField` at position `pos`; every turn moves on. -/
def valueFieldFrom (object : Text) (objEnd : ℕ) (key : Text) : ℕ → ℕ → Option Text
  | 0, _ => none
  | turns + 1, pos =>
      let bounded (p : UInt8 → Bool) (pos : ℕ) : ℕ := min objEnd (skip p object pos)
      if objEnd ≤ pos then none
      else
        let pos := bounded (fun c ↦ isSpace c || c = 0x2c) pos
        if objEnd ≤ pos then none
        else if object[pos]? ≠ some 0x22 then valueFieldFrom object objEnd key turns (pos + 1)
        else do
          let keyEnd ← findStringEnd object pos
          if objEnd ≤ keyEnd then none
          else
            let currentKey := substr object (pos + 1) (keyEnd - pos - 1)
            let pos := bounded isSpace (keyEnd + 1)
            if objEnd ≤ pos ∨ object[pos]? ≠ some 0x3a then none
            else
              let pos := bounded isSpace (pos + 1)
              if objEnd ≤ pos then none
              else
                let valueEnd ← findJsonValueEnd object pos objEnd
                if currentKey = key then some (substr object pos (valueEnd - pos))
                else valueFieldFrom object objEnd key turns valueEnd

def readJsonValueField (json key : Text) : Option Text := do
  let object := trim json
  let objStart ← find object 0x7b 0
  let objEnd ← findMatching object objStart 0x7b 0x7d
  valueFieldFrom object objEnd key (objEnd + 1) (objStart + 1)

def readJsonStringField (json key : Text) : Option Text := do
  let value ← readJsonValueField json key
  let normalized := trim value
  if isJsonString normalized then some (unquote normalized) else none

def readJsonBoolField (json key : Text) : Option Bool := do
  let value ← readJsonValueField json key
  let normalized := trim value
  if normalized = txt "true" then some true
  else if normalized = txt "false" then some false
  else none

/-- `std::stoull` of a string of digits. -/
def stoull (digits : Text) : Except String ℕ :=
  if decimalValue digits < 2 ^ 64 then .ok (decimalValue digits) else .error "stoull"

/-- A number at the start of the field's value; a numeral beyond 64 bits throws. -/
def readJsonIntegerField (json key : Text) : Except String (Option ℕ) :=
  match readJsonValueField json key with
  | none => .ok none
  | some value =>
      let digits := (trim value).takeWhile isDigit
      if digits = [] then .ok none else some <$> stoull digits

/-- The element after the first comma, if it is a string, an array or an object. -/
def readSecondElement (json : Text) : Option Text := do
  let firstComma ← find json 0x2c 0
  let a := skip isSpace json (firstComma + 1)
  let b ← match json[a]? with
    | some 0x22 => find json 0x22 (a + 1)
    | some 0x5b => findMatching json a 0x5b 0x5d
    | some 0x7b => findMatching json a 0x7b 0x7d
    | _ => none
  some (substr json a (b - a + 1))

/-! ## Pieces of a text -/

theorem substr_isInfix (s : Text) (pos len : ℕ) : substr s pos len <:+: s :=
  (List.take_prefix len _).isInfix.trans (List.drop_suffix pos s).isInfix

theorem trim_isInfix (s : Text) : trim s <:+: s :=
  (List.rdropWhile_prefix _ _).isInfix.trans (List.dropWhile_suffix _).isInfix

theorem valueFieldFrom_isInfix {object key value : Text} {objEnd turns pos : ℕ}
    (h : valueFieldFrom object objEnd key turns pos = some value) : value <:+: object := by
  induction turns generalizing pos with
  | zero => cases h
  | succ turns ih =>
      rw [valueFieldFrom] at h
      dsimp only at h
      split at h
      · cases h
      split at h
      · cases h
      split at h
      · exact ih h
      obtain ⟨keyEnd, -, h⟩ := Option.bind_eq_some_iff.mp h
      split at h
      · cases h
      split at h
      · cases h
      split at h
      · cases h
      obtain ⟨valueEnd, -, h⟩ := Option.bind_eq_some_iff.mp h
      split at h
      · exact Option.some.inj h ▸ substr_isInfix _ _ _
      · exact ih h

theorem readJsonValueField_isInfix {json key value : Text}
    (h : readJsonValueField json key = some value) : value <:+: json := by
  obtain ⟨objStart, -, h⟩ := Option.bind_eq_some_iff.mp h
  obtain ⟨objEnd, -, h⟩ := Option.bind_eq_some_iff.mp h
  exact (valueFieldFrom_isInfix h).trans (trim_isInfix json)

theorem eq_quoted_unquote {s : Text} (h : isJsonString s = true) :
    s = 0x22 :: (unquote s ++ [0x22]) := by
  obtain ⟨hlength, hfirst, hlast⟩ := of_decide_eq_true h
  obtain ⟨rest, rfl⟩ := List.head?_eq_some_iff.mp hfirst
  have hne : rest ≠ [] := by
    rintro rfl
    exact absurd hlength (by decide)
  rw [List.getLast?_cons_of_ne_nil hne] at hlast
  obtain ⟨inner, rfl⟩ := List.getLast?_eq_some_iff.mp hlast
  have hsize : (0x22 :: (inner ++ [0x22]) : Text).length - 2 = inner.length := by
    rw [List.length_cons, List.length_append, List.length_singleton]
    omega
  rw [unquote, if_pos h, substr, hsize, List.drop_one, List.tail_cons, List.take_left]

/-- A field that is a string stands in quotes. -/
theorem readJsonStringField_isInfix {json key value : Text}
    (h : readJsonStringField json key = some value) : 0x22 :: (value ++ [0x22]) <:+: json := by
  obtain ⟨field, hfield, h⟩ := Option.bind_eq_some_iff.mp h
  dsimp only at h
  split at h
  · rename_i hstring
    obtain rfl := Option.some.inj h
    rw [← eq_quoted_unquote hstring]
    exact (trim_isInfix field).trans (readJsonValueField_isInfix hfield)
  · cases h

theorem readSecondElement_isInfix {json value : Text} (h : readSecondElement json = some value) :
    value <:+: json := by
  obtain ⟨firstComma, -, h⟩ := Option.bind_eq_some_iff.mp h
  dsimp only at h
  split at h <;>
    obtain ⟨last, -, h⟩ := Option.bind_eq_some_iff.mp h <;>
    exact Option.some.inj h ▸ substr_isInfix _ _ _

/-! ## Bit fields -/

structure BitfieldPart where
  name : Text
  size : ℤ
  signedValue : Bool
  deriving DecidableEq

/-- The loop over the objects of the second element from `pos`; every turn moves on. -/
def bitfieldPartsFrom (fields : Text) : ℕ → ℕ → Except String (List BitfieldPart)
  | 0, _ => .ok []
  | turns + 1, pos =>
      match find fields 0x7b pos with
      | none => .ok []
      | some objStart =>
          match findMatching fields objStart 0x7b 0x7d with
          | none => .error "bitfield field object not closed"
          | some objEnd => do
              let fieldObj := substr fields objStart (objEnd - objStart + 1)
              let name := readJsonStringField fieldObj (txt "name")
              let size ← readJsonIntegerField fieldObj (txt "size")
              let signedValue := (readJsonBoolField fieldObj (txt "signed")).getD false
              match name, size with
              | some name, some size =>
                  let rest ← bitfieldPartsFrom fields turns (objEnd + 1)
                  -- The cast to `int` keeps the low 32 bits.
                  .ok (⟨name, (Int32.ofNat size).toInt, signedValue⟩ :: rest)
              | _, _ => .error "bitfield field missing name or size"

def readBitfieldParts (bitfieldJson : Text) : Except String (List BitfieldPart) :=
  match readSecondElement bitfieldJson with
  | none => .error "bitfield fields array not found"
  | some fields => bitfieldPartsFrom fields (fields.length + 1) 0

/-! ## Bit flags -/

/-- A decimal numeral without its other characters, in 128 bits. -/
def parseUint128 (text : Text) : BitVec 128 :=
  text.foldl (fun value c ↦ if isDigit c then value * 10 + BitVec.ofNat 128 (c.toNat - 0x30)
    else value) 0

/-- `map[name] = bit`. -/
def setFlag (name : Text) (bit : BitVec 128) :
    List (Text × BitVec 128) → List (Text × BitVec 128)
  | [] => [(name, bit)]
  | (n, b) :: flags => if n = name then (n, bit) :: flags else (n, b) :: setFlag name bit flags

/-- The names of a list of flags from `pos`, each one bit above the one before. -/
def listFlagsFrom (flags : Text) :
    ℕ → ℕ → BitVec 128 → List (Text × BitVec 128) → List (Text × BitVec 128)
  | 0, _, _, out => out
  | turns + 1, pos, bit, out =>
      match find flags 0x22 pos with
      | none => out
      | some q1 =>
          match find flags 0x22 (q1 + 1) with
          | none => out
          | some q2 =>
              listFlagsFrom flags turns (q2 + 1) (bit <<< 1)
                (setFlag (substr flags (q1 + 1) (q2 - q1 - 1)) bit out)

/-- The names of an object of flags from `pos`, each with its mask. -/
def objectFlagsFrom (flags : Text) :
    ℕ → ℕ → List (Text × BitVec 128) → List (Text × BitVec 128)
  | 0, _, out => out
  | turns + 1, pos, out =>
      match find flags 0x22 pos with
      | none => out
      | some q1 =>
          match find flags 0x22 (q1 + 1) with
          | none => out
          | some q2 =>
              match find flags 0x3a (q2 + 1) with
              | none => out
              | some colon =>
                  let n := skip isSpace flags (colon + 1)
                  let e := skip isDigit flags n
                  objectFlagsFrom flags turns e
                    (setFlag (substr flags (q1 + 1) (q2 - q1 - 1))
                      (parseUint128 (substr flags n (e - n))) out)

/-- The masks of the flags; `readBitflagValues128` in the encoder. -/
def readBitflagValues (bitflagsJson : Text) : List (Text × BitVec 128) :=
  match readJsonValueField bitflagsJson (txt "flags") with
  | none => []
  | some flagsValue =>
      let flags := trim flagsValue
      match flags.head? with
      | some 0x5b => listFlagsFrom flags (flags.length + 1) 0 1 []
      | some 0x7b => objectFlagsFrom flags (flags.length + 1) 0 []
      | _ => []

end SchemaText

end BedrockProtocol
