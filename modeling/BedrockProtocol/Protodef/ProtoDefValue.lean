import BedrockProtocol.Lib.FloatBits
import BedrockProtocol.Lib.Text

/-!
# Dynamic values

`ProtoDefValue.hpp`: the value tree of JSON texts and packet parameters.  An
object is an association list without repeated keys, in the order in which keys
were first assigned; nothing depends on that order.
-/

namespace BedrockProtocol

inductive ProtoDefValue
  | null
  | bool (value : Bool)
  | int (value : ℤ)
  | uint (value : ℕ)
  | double (bits : UInt64)
  | string (value : Text)
  | bytes (value : List UInt8)
  | object (fields : List (Text × ProtoDefValue))
  | array (items : List ProtoDefValue)

namespace ProtoDefValue

/-- `map[key] = value`. -/
def assign (key : Text) (value : ProtoDefValue) :
    List (Text × ProtoDefValue) → List (Text × ProtoDefValue)
  | [] => [(key, value)]
  | (k, v) :: fields => if k = key then (k, value) :: fields else (k, v) :: assign key value fields

def find (key : Text) : List (Text × ProtoDefValue) → Option ProtoDefValue
  | [] => none
  | (k, v) :: fields => if k = key then some v else find key fields

theorem find_assign (key name : Text) (value : ProtoDefValue)
    (fields : List (Text × ProtoDefValue)) :
    find name (assign key value fields) = if key = name then some value else find name fields := by
  induction fields with
  | nil => rfl
  | cons field fields ih =>
      obtain ⟨k, v⟩ := field
      rw [assign]
      by_cases hk : k = key
      · subst hk
        rw [if_pos rfl, find, find]
        split
        · rfl
        · rfl
      · rw [if_neg hk, find, find, ih]
        by_cases hkey : key = name
        · rw [if_neg fun h ↦ hk (h.trans hkey.symm), if_pos hkey, if_pos hkey]
        · rw [if_neg hkey, if_neg hkey]

/-- Only an object has fields. -/
def objectValue : ProtoDefValue → List (Text × ProtoDefValue)
  | object fields => fields
  | _ => []

def get (value : ProtoDefValue) (key : Text) : Option ProtoDefValue := find key value.objectValue

mutual

/-- `p` holds of the value and of every value inside it. -/
def Throughout (p : ProtoDefValue → Prop) : ProtoDefValue → Prop
  | .null => p .null
  | .bool value => p (.bool value)
  | .int value => p (.int value)
  | .uint value => p (.uint value)
  | .double bits => p (.double bits)
  | .string value => p (.string value)
  | .bytes value => p (.bytes value)
  | .object fields => p (.object fields) ∧ ThroughoutFields p fields
  | .array items => p (.array items) ∧ ThroughoutItems p items

def ThroughoutItems (p : ProtoDefValue → Prop) : List ProtoDefValue → Prop
  | [] => True
  | item :: items => Throughout p item ∧ ThroughoutItems p items

def ThroughoutFields (p : ProtoDefValue → Prop) : List (Text × ProtoDefValue) → Prop
  | [] => True
  | (_, child) :: fields => Throughout p child ∧ ThroughoutFields p fields

end

/-- Integers have 64 bits and an object has one value for a key. -/
def InRange : ProtoDefValue → Prop
  | .int value => -2 ^ 63 ≤ value ∧ value < 2 ^ 63
  | .uint value => value < 2 ^ 64
  | .object fields => (fields.map Prod.fst).Nodup
  | _ => True

/-- The value is one of the values inside it. -/
theorem Throughout.self {p : ProtoDefValue → Prop} {value : ProtoDefValue}
    (h : value.Throughout p) : p value := by
  cases value with
  | object fields => exact h.1
  | array items => exact h.1
  | null => exact h
  | bool value => exact h
  | int value => exact h
  | uint value => exact h
  | double bits => exact h
  | string value => exact h
  | bytes value => exact h

end ProtoDefValue

end BedrockProtocol
