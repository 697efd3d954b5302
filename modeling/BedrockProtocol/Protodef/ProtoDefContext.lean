import BedrockProtocol.Protodef.ProtoDefValue
import Mathlib.Data.List.DropRight
import Mathlib.Data.List.Infix
import Mathlib.Logic.Function.Basic

/-!
# What the decoder records

`ProtoDefField.hpp` and `ProtoDefContext.hpp`: a list of decoded fields, and a
map from paths to texts that later fields look values up in.
-/

namespace BedrockProtocol

structure ProtoDefField where
  path : Text
  type : Text
  value : Text
  offset : ℕ := 0
  size : ℕ := 0
  structuredValue : Option ProtoDefValue := none

structure ProtoDefContext where
  values : Text → Option Text := fun _ ↦ none

namespace ProtoDefContext

/-- What follows the last dot of a key. -/
def shortKey (key : Text) : Option Text :=
  if key.contains 0x2e then
    let short := key.rtakeWhile (· ≠ 0x2e)
    if short = [] then none else some short
  else none

/-- The value under its key and under the part of the key after the last dot. -/
def set (context : ProtoDefContext) (key value : Text) : ProtoDefContext :=
  let values := Function.update context.values key (some value)
  match shortKey key with
  | none => ⟨values⟩
  | some short => ⟨Function.update values short (some value)⟩

def has (context : ProtoDefContext) (key : Text) : Bool := (context.values key).isSome

def get (context : ProtoDefContext) (key : Text) : Text := (context.values key).getD []

end ProtoDefContext

/-- The fields decoded so far and the context. -/
structure Decoded where
  out : List ProtoDefField := []
  context : ProtoDefContext := {}

namespace Decoded

/-- `appendField`; a decoder that only validates keeps no fields. -/
def appendField (collectFields : Bool) (field : ProtoDefField) (decoded : Decoded) : Decoded :=
  if collectFields then { decoded with out := decoded.out ++ [field] } else decoded

def setContext (key value : Text) (decoded : Decoded) : Decoded :=
  { decoded with context := decoded.context.set key value }

/-- A field that is appended and put into the context. -/
def record (collectFields : Bool) (field : ProtoDefField) (decoded : Decoded) : Decoded :=
  (decoded.appendField collectFields field).setContext field.path field.value

end Decoded

/-- The path of a child. -/
def childPath (path name : Text) : Text := if path = [] then name else path ++ txt "." ++ name

end BedrockProtocol
