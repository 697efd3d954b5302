import Mathlib.Data.List.Basic

/-!
# Handing over a queue

Items come in, are parked while there is nobody to take them, and are delivered
directly afterwards.  In between somebody delivers the parked ones.  Nothing is
lost, repeated or reordered as long as no item is delivered directly before that
is done.
-/

namespace BedrockProtocol

/-- Items on their way, the ones in front first. -/
structure Handover (α : Type) where
  delivered : List α
  flushing : List α
  parked : List α
  coming : List α

namespace Handover

variable {α : Type}

/-- All items there were so far. -/
def items (line : Handover α) : List α :=
  line.delivered ++ line.flushing ++ line.parked ++ line.coming

/-- What may happen to the items, with the ones that come in. -/
inductive Step : Handover α → List α → Handover α → Prop
  | stay (line : Handover α) : Step line [] line
  | arrive (delivered flushing parked coming items : List α) :
      Step ⟨delivered, flushing, parked, coming⟩ items
        ⟨delivered, flushing, parked, coming ++ items⟩
  | park (delivered flushing parked first coming : List α) :
      Step ⟨delivered, flushing, parked, first ++ coming⟩ []
        ⟨delivered, flushing, parked ++ first, coming⟩
  | flush (delivered parked coming : List α) :
      Step ⟨delivered, [], parked, coming⟩ [] ⟨delivered, parked, [], coming⟩
  | deliverFlushed (delivered first flushing parked coming : List α) :
      Step ⟨delivered, first ++ flushing, parked, coming⟩ []
        ⟨delivered ++ first, flushing, parked, coming⟩
  | deliverDirectly (delivered first coming : List α) :
      Step ⟨delivered, [], [], first ++ coming⟩ [] ⟨delivered ++ first, [], [], coming⟩

theorem Step.items_eq {line line' : Handover α} {items : List α} (h : Step line items line') :
    line'.items = line.items ++ items := by
  cases h <;> simp [Handover.items]

theorem Step.items_unchanged {line line' : Handover α} (h : Step line [] line') :
    line'.items = line.items := by
  rw [h.items_eq, List.append_nil]

theorem delivered_prefix (line : Handover α) : line.delivered <+: line.items :=
  ⟨line.flushing ++ line.parked ++ line.coming, by simp [items]⟩

end Handover

end BedrockProtocol
