import BedrockProtocol.Item.BedrockItem

/-!
# Loading and writing the item states

`loadItemStates` keeps every entry in packet order, under its name without a `minecraft:` in
front; `writeItemStates` puts that back and derives `componentBased` from the namespace.
-/

namespace BedrockProtocol.BedrockItemRegistryData

variable (data : BedrockItemRegistryData)

/-- The namespace of a name: what stands before the first colon. -/
def itemNamespace (name : Text) : Text := name.takeWhile (· ≠ 0x3a)

/-- A namespaced name after loading and writing: a `minecraft:` in front of a name that is
namespaced itself is gone. -/
def restoredName (name : Text) : Text :=
  if txt "minecraft:" <+: name ∧ (0x3a : UInt8) ∈ name.drop 10 then name.drop 10 else name

/-- An entry with a namespaced name after loading and writing. -/
def restored (state : BedrockItemState) : BedrockItemState :=
  { state with
    name := restoredName state.name
    componentBased := itemNamespace (restoredName state.name) ≠ txt "minecraft" }

/-! ## The arrays after loading -/

theorem loadItemStates_arrays (states : List BedrockItemState) :
    (data.loadItemStates states).itemsArray = states.map (fun state ↦
        data.definitionOf { state with name := normalizeName state.name }) ∧
      (data.loadItemStates states).itemStates = states.map fun state ↦
        { state with name := normalizeName state.name } := by
  have hfold (indexes : ItemIndexes) :
      (states.foldl data.loadItemState indexes).itemsArray =
          indexes.itemsArray ++ states.map (fun state ↦
            data.definitionOf { state with name := normalizeName state.name }) ∧
        (states.foldl data.loadItemState indexes).itemStates =
          indexes.itemStates ++ states.map fun state ↦
            { state with name := normalizeName state.name } := by
    induction states generalizing indexes with
    | nil => simp
    | cons state states ih =>
        rw [List.foldl_cons, (ih _).1, (ih _).2]
        simp [loadItemState]
  exact hfold {}

/-! ## What is written -/

theorem normalizeName_colon {name : Text} (hcolon : (0x3a : UInt8) ∈ name) :
    (if (0x3a : UInt8) ∈ normalizeName name then normalizeName name
      else txt "minecraft:" ++ normalizeName name) = restoredName name := by
  rw [normalizeName, restoredName]
  by_cases hvanilla : txt "minecraft:" <+: name
  · obtain ⟨rest, rfl⟩ := hvanilla
    have hdrop : (txt "minecraft:" ++ rest).drop 10 = rest := List.drop_left' rfl
    simp only [List.prefix_append, if_true, true_and, hdrop]
  · simp only [hvanilla, if_false, false_and, hcolon, if_true]

theorem colon_mem_restoredName {name : Text} (hcolon : (0x3a : UInt8) ∈ name) :
    (0x3a : UInt8) ∈ restoredName name := by
  rw [restoredName]
  split
  · rename_i h
    exact h.2
  · exact hcolon

theorem writeItemState_loadItemStates {states : List BedrockItemState} {index : ℕ}
    {state : BedrockItemState} (hstate : states[index]? = some state)
    (hcolon : (0x3a : UInt8) ∈ state.name) :
    (data.loadItemStates states).writeItemState index
        (data.definitionOf { state with name := normalizeName state.name }) = restored state := by
  have hkept : (data.loadItemStates states).itemStates[index]? =
      some { state with name := normalizeName state.name } := by
    rw [(data.loadItemStates_arrays states).2, List.getElem?_map, hstate]
    rfl
  have hflag : (decide ((0x3a : UInt8) ∈ restoredName state.name ∧
      itemNamespace (restoredName state.name) ≠ txt "minecraft")) =
      decide (itemNamespace (restoredName state.name) ≠ txt "minecraft") :=
    decide_eq_decide.mpr (and_iff_right (colon_mem_restoredName hcolon))
  rw [← normalizeName_colon hcolon] at hflag
  rw [writeItemState, hkept, restored, ← normalizeName_colon hcolon]
  exact (BedrockItemState.mk.injEq ..).mpr ⟨rfl, rfl, hflag, rfl, rfl⟩

/-- Every entry comes back in its place with its id, version and NBT. -/
theorem writeItemStates_eq_restored (states : List BedrockItemState)
    (hnames : ∀ state ∈ states, (0x3a : UInt8) ∈ state.name) :
    (data.loadItemStates states).writeItemStates = states.map restored := by
  rw [writeItemStates, (data.loadItemStates_arrays states).1]
  apply List.ext_getElem?
  intro index
  rw [List.getElem?_mapIdx, List.getElem?_map, List.getElem?_map]
  cases hstate : states[index]? with
  | none => rfl
  | some state =>
      have hcolon := hnames state (List.mem_of_getElem? hstate)
      exact congrArg some (data.writeItemState_loadItemStates hstate hcolon)

/-- A name with a namespace; behind `minecraft:` there is no further colon. -/
def Namespaced (name : Text) : Prop :=
  (0x3a : UInt8) ∈ name ∧ (txt "minecraft:" <+: name → (0x3a : UInt8) ∉ name.drop 10)

instance (name : Text) : Decidable (Namespaced name) := inferInstanceAs (Decidable (_ ∧ _))

theorem restoredName_of_namespaced {name : Text} (h : Namespaced name) :
    restoredName name = name := by
  rw [restoredName, if_neg]
  rintro ⟨hvanilla, hcolon⟩
  exact h.2 hvanilla hcolon

/-- The entries are the same but for `componentBased`, which tells the namespaces apart. -/
theorem writeItemStates_loadItemStates (states : List BedrockItemState)
    (hnames : ∀ state ∈ states, Namespaced state.name) :
    (data.loadItemStates states).writeItemStates = states.map fun state ↦
      { state with componentBased := itemNamespace state.name ≠ txt "minecraft" } := by
  rw [data.writeItemStates_eq_restored states fun state hstate ↦ (hnames state hstate).1]
  refine List.map_congr_left fun state hstate ↦ ?_
  rw [restored, restoredName_of_namespaced (hnames state hstate)]

/-- A vanilla item with components, a custom one without, and a name with two colons. -/
def dynamicStates : List BedrockItemState :=
  [{ name := txt "minecraft:stone", runtimeId := 900, componentBased := true },
    { name := txt "custom:wand", runtimeId := 901, componentBased := false },
    { name := txt "custom:tool:rod", runtimeId := 902, componentBased := true }]

theorem writeItemStates_dynamicStates_restored :
    (loadItemStates {} dynamicStates).writeItemStates =
      [{ name := txt "minecraft:stone", runtimeId := 900, componentBased := false },
        { name := txt "custom:wand", runtimeId := 901, componentBased := true },
        { name := txt "custom:tool:rod", runtimeId := 902, componentBased := true }] :=
  (writeItemStates_loadItemStates {} dynamicStates (by decide +kernel)).trans rfl

theorem writeItemStates_dynamicStates :
    (∀ state ∈ dynamicStates, (0x3a : UInt8) ∈ state.name) ∧
      (loadItemStates {} dynamicStates).writeItemStates.map BedrockItemState.componentBased ≠
        dynamicStates.map BedrockItemState.componentBased := by
  decide +kernel

end BedrockProtocol.BedrockItemRegistryData
