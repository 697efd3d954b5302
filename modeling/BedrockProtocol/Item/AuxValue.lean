import BedrockProtocol.Item.BedrockItem
import BedrockProtocol.Nbt.RoundTrip

/-!
# Items with an auxiliary value

In the older packet format count and metadata of an item share a 32-bit integer: the low
byte is the count, the rest the metadata.  What does not fit is lost without an error.
-/

namespace BedrockProtocol

/-- The items agree in what identifies a stack. -/
def BedrockItem.SameStack (item other : BedrockItem) : Prop :=
  item.type = other.type ∧ item.count = other.count ∧ item.metadata = other.metadata

namespace BedrockItem

/-! ## Lists of blocks -/

/-- The document of the item, if there is one, is a compound. -/
def CompoundNbt (item : BedrockItem) : Prop :=
  ∃ document, item.nbt = some document ∧ document.root.type = .compound

theorem CompoundNbt.nbt_ne_none {item : BedrockItem} (hnbt : item.CompoundNbt) :
    ¬item.nbt.isNone = true := by
  obtain ⟨document, hsome, -⟩ := hnbt
  rw [hsome]
  exact Bool.false_ne_true

theorem updateNbtRoot_eq_ok {item : BedrockItem} {update : NbtValue → Except String NbtValue}
    (hnbt : item.CompoundNbt)
    (hupdate : ∀ root, root.type = .compound → ∃ root', update root = .ok root' ∧
      root'.type = .compound) :
    ∃ item', item.updateNbtRoot update = .ok item' ∧ item'.SameStack item ∧ item'.CompoundNbt := by
  obtain ⟨document, hsome, hcompound⟩ := hnbt
  obtain ⟨root', hroot, htype⟩ := hupdate document.root hcompound
  have hensure : item.ensureNbtRoot = .ok document := by
    rw [ensureNbtRoot, hsome]
    exact if_neg (not_not.mpr hcompound)
  refine ⟨{ item with nbt := some { document with root := root' } }, ?_, ⟨rfl, rfl, rfl⟩,
    ⟨_, rfl, htype⟩⟩
  rw [updateNbtRoot, hensure]
  change (update document.root >>= _) = _
  rw [hroot]
  rfl

theorem setNbtStringList_eq_ok {root : NbtValue} (hcompound : root.type = .compound) (name : Text)
    (values : List Text) :
    ∃ root', setNbtStringList root name values = .ok root' ∧ root'.type = .compound := by
  rw [setNbtStringList]
  split
  · refine ⟨_, rfl, ?_⟩
    rw [eraseNbtChild, if_neg (not_not.mpr hcompound)]
    exact hcompound
  · exact ⟨_, if_neg (not_not.mpr hcompound), hcompound⟩

theorem setBlocksCanPlaceOn_eq_ok {item : BedrockItem} (hnbt : item.CompoundNbt)
    (value : List Text) :
    ∃ item', item.setBlocksCanPlaceOn value = .ok item' ∧ item'.SameStack item ∧
      item'.CompoundNbt := by
  rw [setBlocksCanPlaceOn, if_neg fun h ↦ hnbt.nbt_ne_none h.2]
  exact updateNbtRoot_eq_ok hnbt fun root hroot ↦ setNbtStringList_eq_ok hroot _ value

theorem setBlocksCanDestroy_eq_ok {item : BedrockItem} (hnbt : item.CompoundNbt)
    (value : List Text) :
    ∃ item', item.setBlocksCanDestroy value = .ok item' ∧ item'.SameStack item ∧
      item'.CompoundNbt := by
  rw [setBlocksCanDestroy, if_neg fun h ↦ hnbt.nbt_ne_none h.2]
  exact updateNbtRoot_eq_ok hnbt fun root hroot ↦ setNbtStringList_eq_ok hroot _ value

/-- A list of blocks is set only if it has elements. -/
theorem setBlocks_eq_ok {item : BedrockItem} {values : List Text} {result : Except String BedrockItem}
    (hset : item.CompoundNbt →
      ∃ item', result = .ok item' ∧ item'.SameStack item ∧ item'.CompoundNbt)
    (hblocks : values ≠ [] → item.CompoundNbt) :
    ∃ item', (if values ≠ [] then result else pure item) = .ok item' ∧ item'.SameStack item ∧
      (item.CompoundNbt → item'.CompoundNbt) := by
  split
  · rename_i hvalues
    obtain ⟨item', hresult, hsame, hcompound⟩ := hset (hblocks hvalues)
    exact ⟨item', hresult, hsame, fun _ ↦ hcompound⟩
  · exact ⟨item, rfl, ⟨rfl, rfl, rfl⟩, id⟩

/-- A list of blocks is a child of the root, so there is something to send. -/
theorem hasNbtPayload_of_find {item : BedrockItem} {document : NbtDocument} {name : Text}
    (hnbt : item.nbt = some document) (hfind : nbtStringList (document.root.find name) ≠ []) :
    document.root.type = .compound ∧ item.hasNbtPayload = true := by
  have hcompound : document.root.type = .compound := by
    by_contra hother
    rw [NbtValue.find, if_neg hother] at hfind
    exact hfind rfl
  refine ⟨hcompound, ?_⟩
  have hchildren : document.root.compoundValue ≠ [] := by
    intro hnil
    rw [NbtValue.find, if_pos hcompound, hnil] at hfind
    exact hfind rfl
  rw [hasNbtPayload, hnbt]
  simp [hcompound, hchildren]

theorem sendsNbt_of_blocks {item : BedrockItem}
    (h : item.blocksCanPlaceOn ≠ [] ∨ item.blocksCanDestroy ≠ []) :
    ∃ document, item.nbt = some document ∧ document.root.type = .compound ∧
      item.hasNbtPayload = true := by
  cases hnbt : item.nbt with
  | none => simp [blocksCanPlaceOn, blocksCanDestroy, hnbt] at h
  | some document =>
      rw [blocksCanPlaceOn, blocksCanDestroy, hnbt] at h
      rcases h with h | h
      · exact ⟨document, rfl, hasNbtPayload_of_find hnbt h⟩
      · exact ⟨document, rfl, hasNbtPayload_of_find hnbt h⟩

end BedrockItem

theorem BedrockNbt.keptDocument_type {document : NbtDocument}
    (hcompound : document.root.type = .compound) :
    (BedrockNbt.keptDocument document).root.type = .compound := by
  obtain ⟨name, root⟩ := document
  obtain ⟨type, _, _, _, _, _, _, _, _, _⟩ := root
  obtain rfl : type = .compound := hcompound
  rfl

namespace BedrockItemRegistryData

variable (data : BedrockItemRegistryData)

/-! ## Items from the network -/

theorem create_sentByServer (type : Int32) (count : UInt16) (metadata : Int32)
    (nbt : Option NbtDocument) (stackId : Option Int32) :
    ∃ item after, data.create type count metadata nbt stackId true = .ok (item, after) ∧
      item.type = type ∧ item.count = count ∧ item.metadata = metadata ∧ item.nbt = nbt := by
  rw [create]
  cases data.itemsById type with
  | none => exact ⟨_, _, rfl, rfl, rfl, rfl, rfl⟩
  | some definition => exact ⟨_, _, rfl, rfl, rfl, rfl, rfl⟩

/-- Lists of blocks come with a compound to put them into. -/
theorem fromNetwork_eq_ok (value : BedrockNetworkItem) (legacyStackId : Option Int32)
    (hid : value.networkId ≠ 0)
    (hblocks : value.canPlaceOn ≠ [] ∨ value.canDestroy ≠ [] →
      ∃ document, value.nbt = some document ∧ document.root.type = .compound) :
    ∃ item, data.fromNetwork value legacyStackId = .ok (some item) ∧
      item.type = value.networkId ∧ item.count = value.count ∧ item.metadata = value.metadata := by
  obtain ⟨item, after, hcreate, htype, hcount, hmetadata, hnbt⟩ :=
    data.create_sentByServer value.networkId value.count value.metadata value.nbt
      (if data.usesAuxValue then legacyStackId else value.stackId)
  have hcompound (h : value.canPlaceOn ≠ [] ∨ value.canDestroy ≠ []) : item.CompoundNbt := by
    obtain ⟨document, hsome, hroot⟩ := hblocks h
    exact ⟨document, hnbt.trans hsome, hroot⟩
  obtain ⟨placed, hplaced, hsame, hkept⟩ := BedrockItem.setBlocks_eq_ok
    (fun h ↦ BedrockItem.setBlocksCanPlaceOn_eq_ok h value.canPlaceOn) fun h ↦ hcompound (.inl h)
  obtain ⟨done, hdone, hsame', -⟩ := BedrockItem.setBlocks_eq_ok
    (fun h ↦ BedrockItem.setBlocksCanDestroy_eq_ok h value.canDestroy)
    fun h ↦ hkept (hcompound (.inr h))
  refine ⟨done, ?_, hsame'.1.trans (hsame.1.trans htype),
    hsame'.2.1.trans (hsame.2.1.trans hcount), hsame'.2.2.trans (hsame.2.2.trans hmetadata)⟩
  rw [fromNetwork, if_neg hid]
  refine bind_eq_ok.mpr ⟨_, hcreate, ?_⟩
  refine bind_eq_ok.mpr ⟨_, hplaced, ?_⟩
  exact bind_eq_ok.mpr ⟨_, hdone, rfl⟩

/-! ## The packed integer -/

/-- `metadata * 256 + (count & 0xff)`. -/
def packedAux (undefinedInt : ℤ → Int32) (count : UInt16) (metadata : Int32) : Int32 :=
  intResult undefinedInt
    ((intResult undefinedInt (metadata.toInt * 256)).toInt + count.toNat % 256)

theorem intResult_toInt {undefinedInt : ℤ → Int32} {value : ℤ} (h : InSigned 32 value) :
    (intResult undefinedInt value).toInt = value := by
  rw [intResult, if_pos h]
  exact Int32.toInt_ofInt_of_le h.1 h.2

theorem packedAux_toInt {undefinedInt : ℤ → Int32} {count : UInt16} {metadata : Int32}
    (h : InSigned 24 metadata.toInt) :
    (packedAux undefinedInt count metadata).toInt = metadata.toInt * 256 + count.toNat % 256 := by
  rw [InSigned] at h
  have hproduct : InSigned 32 (metadata.toInt * 256) := by
    rw [InSigned]
    omega
  rw [packedAux, intResult_toInt hproduct, intResult_toInt]
  rw [InSigned]
  omega

theorem toUnsigned_eight (value : ℤ) : (toUnsigned 8 value : ℤ) = value % 256 := by
  rw [toUnsigned]
  omega

theorem unpack_packedAux_iff (undefinedInt : ℤ → Int32) (count : UInt16) (metadata : Int32) :
    UInt16.ofNat (toUnsigned 8 (packedAux undefinedInt count metadata).toInt) = count ∧
        Int32.ofInt ((packedAux undefinedInt count metadata).toInt >>> (8 : ℕ)) = metadata ↔
      count < 256 ∧ InSigned 24 metadata.toInt := by
  constructor
  · rintro ⟨hcount, hmetadata⟩
    have hlow := toUnsigned_eight (packedAux undefinedInt count metadata).toInt
    have hmin := (packedAux undefinedInt count metadata).le_toInt
    have hmax := (packedAux undefinedInt count metadata).toInt_lt
    have hshift := Int.shiftRight_eq_div_pow (packedAux undefinedInt count metadata).toInt 8
    refine ⟨?_, ?_⟩
    · have hsize : UInt16.size = 65536 := rfl
      rw [← hcount, UInt16.lt_iff_toNat_lt, UInt16.toNat_ofNat_of_lt' (by omega)]
      change _ < 256
      omega
    · rw [← hmetadata, hshift, Int32.toInt_ofInt_of_le (by omega) (by omega), InSigned]
      omega
  · rintro ⟨hcount, hmetadata⟩
    have hlt : count.toNat < 256 := hcount
    rw [packedAux_toInt hmetadata]
    have hlow := toUnsigned_eight (metadata.toInt * 256 + count.toNat % 256)
    have hshift := Int.shiftRight_eq_div_pow (metadata.toInt * 256 + count.toNat % 256) 8
    refine ⟨?_, ?_⟩
    · have hbyte : toUnsigned 8 (metadata.toInt * 256 + count.toNat % 256) = count.toNat := by
        omega
      rw [hbyte, UInt16.ofNat_toNat]
    · have hrest : (metadata.toInt * 256 + count.toNat % 256) >>> (8 : ℕ) = metadata.toInt := by
        rw [hshift]
        omega
      rw [hrest, Int32.ofInt_toInt]

/-! ## There and back -/

open ProtoDefValue

theorem protoStrings_protoStringArray (values : List Text) :
    protoStrings (some (protoStringArray values)) = values := by
  induction values with
  | nil => rfl
  | cons value values ih => exact congrArg (value :: ·) ih

/-- How the fields after the auxiliary value are read. -/
structure ReadExtra (network : BedrockNetworkItem) (extra : List (Text × ProtoDefValue)) :
    Prop where
  canPlaceOn : find (txt "can_place_on") extra = some (protoStringArray network.canPlaceOn)
  canDestroy : find (txt "can_destroy") extra = some (protoStringArray network.canDestroy)
  blockingTick : find (txt "blocking_tick") extra = some (.int network.blockingTick)
  nbt : ∀ undefinedCast, protoNbt undefinedCast (find (txt "nbt") extra) .littleVarInt =
    .ok (network.nbt.map BedrockNbt.keptDocument)

theorem protoNbt_wrapper {document : NbtDocument} {bytes : List UInt8}
    {encoding : BedrockNbtEncoding} (undefinedCast : UInt64 → UInt64)
    (hwrite : BedrockNbt.write encoding {} document = .ok bytes) :
    protoNbt undefinedCast (some (.object [(txt "version", .uint 1), (txt "nbt", .bytes bytes)]))
      encoding = .ok (some (BedrockNbt.keptDocument document)) := by
  have hread := BedrockNbt.reads_read_kept hwrite 0 []
  rw [List.append_nil] at hread
  change (BedrockNbt.read encoding {} (Cursor.start bytes) >>= _) = _
  rw [Cursor.start, hread]
  rfl

theorem extraFields_eq_ok {network : BedrockNetworkItem} {extra : List (Text × ProtoDefValue)}
    (h : extraFields network .littleVarInt = .ok extra) : ReadExtra network extra := by
  rw [extraFields] at h
  cases hnbt : network.nbt with
  | none =>
      rw [hnbt] at h
      obtain rfl := Except.ok.inj h
      exact ⟨rfl, rfl, rfl, fun undefinedCast ↦ by rw [hnbt]; rfl⟩
  | some document =>
      rw [hnbt] at h
      obtain ⟨wrapper, hwrapper, h⟩ := bind_eq_ok.mp h
      obtain ⟨bytes, hwrite, hobject⟩ := bind_eq_ok.mp hwrapper
      obtain rfl := Except.ok.inj hobject
      obtain rfl := Except.ok.inj h
      refine ⟨rfl, rfl, rfl, fun undefinedCast ↦ ?_⟩
      rw [hnbt]
      exact protoNbt_wrapper undefinedCast hwrite

/-- The fields cannot be written only if the document cannot. -/
theorem extraFields_eq_error (network : BedrockNetworkItem) :
    (∀ extra, extraFields network .littleVarInt ≠ .ok extra) ↔
      ∃ document, network.nbt = some document ∧
        ∀ bytes, BedrockNbt.write .littleVarInt {} document ≠ .ok bytes := by
  rw [extraFields]
  cases hnbt : network.nbt with
  | none => exact ⟨fun h ↦ absurd rfl (h _), fun ⟨_, h, _⟩ ↦ by cases h⟩
  | some document =>
      constructor
      · intro h
        refine ⟨document, rfl, fun bytes hwrite ↦ ?_⟩
        have hwrapper : protoNbtWrapper document .littleVarInt =
            .ok (.object [(txt "version", .uint 1), (txt "nbt", .bytes bytes)]) :=
          bind_eq_ok.mpr ⟨bytes, hwrite, rfl⟩
        exact h _ (bind_eq_ok.mpr ⟨_, hwrapper, rfl⟩)
      · rintro ⟨_, hdocument, hrefused⟩ extra h
        obtain rfl := Option.some.inj hdocument
        obtain ⟨wrapper, hwrapper, -⟩ := bind_eq_ok.mp h
        obtain ⟨bytes, hwrite, -⟩ := bind_eq_ok.mp hwrapper
        exact hrefused bytes hwrite

theorem checkedInt32_toInt (value : Int32) (context : String) :
    checkedInt32 value.toInt context = .ok value := by
  rw [checkedInt32, if_pos ⟨value.le_toInt, value.toInt_lt⟩, Int32.ofInt_toInt]

/-- What is read from the fields that `toProtoDefValue` writes. -/
theorem auxNetworkItem_eq_ok {network : BedrockNetworkItem} {extra : List (Text × ProtoDefValue)}
    (undefinedCast : UInt64 → UInt64) (auxiliary : Int32) (hextra : ReadExtra network extra) :
    auxNetworkItem undefinedCast network.networkId (.object
        ((txt "network_id", .int network.networkId.toInt) ::
          (txt "auxiliary_value", .int auxiliary.toInt) :: extra)) =
      .ok
        { networkId := network.networkId, count := .ofNat (toUnsigned 8 auxiliary.toInt)
          metadata := .ofInt (auxiliary.toInt >>> (8 : ℕ))
          nbt := network.nbt.map BedrockNbt.keptDocument
          canPlaceOn := network.canPlaceOn, canDestroy := network.canDestroy
          blockingTick := network.blockingTick } := by
  have hauxiliary : get (.object ((txt "network_id", .int network.networkId.toInt) ::
      (txt "auxiliary_value", .int auxiliary.toInt) :: extra)) (txt "auxiliary_value") =
      some (.int auxiliary.toInt) := rfl
  have hget (key : Text) (hid : txt "network_id" ≠ key) (haux : txt "auxiliary_value" ≠ key) :
      get (.object ((txt "network_id", .int network.networkId.toInt) ::
        (txt "auxiliary_value", .int auxiliary.toInt) :: extra)) key = find key extra := by
    rw [ProtoDefValue.get, objectValue, find, if_neg hid, find, if_neg haux]
  rw [auxNetworkItem, hauxiliary]
  dsimp only
  rw [hget _ (by decide) (by decide), hget _ (by decide) (by decide), hget _ (by decide) (by decide),
    hget _ (by decide) (by decide), hextra.canPlaceOn, hextra.canDestroy, hextra.blockingTick,
    protoStrings_protoStringArray, protoStrings_protoStringArray, hextra.nbt, protoInteger]
  refine bind_eq_ok.mpr ⟨_, rfl, ?_⟩
  refine bind_eq_ok.mpr ⟨_, checkedInt32_toInt auxiliary _, ?_⟩
  rfl

/-- The network item of a stack that is not air. -/
def networkItem (item : BedrockItem) (stackId : Option Int32) : BedrockNetworkItem where
  networkId := item.type
  count := item.count
  metadata := item.metadata
  stackId := stackId
  nbt := if item.hasNbtPayload then item.nbt else none
  canPlaceOn := item.blocksCanPlaceOn
  canDestroy := item.blocksCanDestroy

theorem toProtoDefValue_aux {item : BedrockItem} (undefinedInt : ℤ → Int32)
    (serverAuthoritative : Bool) (haux : data.usesAuxValue = true) (htype : item.type ≠ 0) :
    data.toProtoDefValue undefinedInt (some item) serverAuthoritative =
      (extraFields (networkItem item none) .littleVarInt).map fun extra ↦ .object
        ((txt "network_id", .int item.type.toInt) :: (txt "auxiliary_value",
          .int (packedAux undefinedInt item.count item.metadata).toInt) :: extra) := by
  have hnetwork : data.toNetwork (some item) serverAuthoritative = networkItem item none := by
    rw [toNetwork]
    simp [htype, haux, networkItem]
  rw [toProtoDefValue, hnetwork]
  exact (if_neg htype).trans (if_pos haux)

/-- What comes back of an item whose packet value was made. -/
theorem fromProtoDefValue_toProtoDefValue {item : BedrockItem} {value : ProtoDefValue}
    {undefinedInt : ℤ → Int32} {serverAuthoritative : Bool} (undefinedCast : UInt64 → UInt64)
    (legacyStackId : Option Int32) (haux : data.usesAuxValue = true) (htype : item.type ≠ 0)
    (hvalue : data.toProtoDefValue undefinedInt (some item) serverAuthoritative = .ok value) :
    ∃ back, data.fromProtoDefValue undefinedCast value legacyStackId = .ok (some back) ∧
      back.type = item.type ∧
      back.count = .ofNat (toUnsigned 8 (packedAux undefinedInt item.count item.metadata).toInt) ∧
      back.metadata = .ofInt ((packedAux undefinedInt item.count item.metadata).toInt >>> (8 : ℕ)) := by
  rw [data.toProtoDefValue_aux undefinedInt serverAuthoritative haux htype] at hvalue
  obtain ⟨extra, hextra, rfl⟩ := map_eq_ok.mp hvalue
  have hread := auxNetworkItem_eq_ok undefinedCast
    (packedAux undefinedInt item.count item.metadata) (extraFields_eq_ok hextra)
  obtain ⟨back, hback, hsame⟩ := data.fromNetwork_eq_ok
    { networkId := item.type
      count := .ofNat (toUnsigned 8 (packedAux undefinedInt item.count item.metadata).toInt)
      metadata := .ofInt ((packedAux undefinedInt item.count item.metadata).toInt >>> (8 : ℕ))
      nbt := (networkItem item none).nbt.map BedrockNbt.keptDocument
      canPlaceOn := item.blocksCanPlaceOn, canDestroy := item.blocksCanDestroy }
    legacyStackId htype (by
      intro hblocks
      obtain ⟨document, hnbt, hcompound, hpayload⟩ := BedrockItem.sendsNbt_of_blocks hblocks
      refine ⟨BedrockNbt.keptDocument document, ?_, BedrockNbt.keptDocument_type hcompound⟩
      rw [networkItem, hpayload, hnbt]
      rfl)
  refine ⟨back, ?_, hsame⟩
  have hid : ProtoDefValue.get (.object ((txt "network_id", .int item.type.toInt) ::
      (txt "auxiliary_value", .int (packedAux undefinedInt item.count item.metadata).toInt) ::
        extra)) (txt "network_id") = some (.int item.type.toInt) := rfl
  rw [fromProtoDefValue, hid]
  refine bind_eq_ok.mpr ⟨_, rfl, bind_eq_ok.mpr ⟨_, checkedInt32_toInt item.type _, ?_⟩⟩
  rw [if_neg htype, if_pos haux]
  exact bind_eq_ok.mpr ⟨_, hread, hback⟩

/-- The packet value of the item cannot be made, or gives a stack of the same type, count and
metadata back. -/
def Recovers (undefinedInt : ℤ → Int32) (undefinedCast : UInt64 → UInt64) (item : BedrockItem)
    (serverAuthoritative : Bool) (legacyStackId : Option Int32) : Prop :=
  ∀ value, data.toProtoDefValue undefinedInt (some item) serverAuthoritative = .ok value →
    ∃ back, data.fromProtoDefValue undefinedCast value legacyStackId = .ok (some back) ∧
      back.SameStack item

/-- The item has NBT that the codec does not write. -/
def NbtRefused (item : BedrockItem) : Prop :=
  item.hasNbtPayload = true ∧ ∃ document, item.nbt = some document ∧
    ∀ bytes, BedrockNbt.write .littleVarInt {} document ≠ .ok bytes

theorem toProtoDefValue_refused_iff {item : BedrockItem} (undefinedInt : ℤ → Int32)
    (serverAuthoritative : Bool) (haux : data.usesAuxValue = true) (htype : item.type ≠ 0) :
    (∀ value, data.toProtoDefValue undefinedInt (some item) serverAuthoritative ≠ .ok value) ↔
      NbtRefused item := by
  have hnbt : (networkItem item none).nbt = if item.hasNbtPayload then item.nbt else none := rfl
  have hrefused := extraFields_eq_error (networkItem item none)
  rw [hnbt] at hrefused
  rw [data.toProtoDefValue_aux undefinedInt serverAuthoritative haux htype, NbtRefused]
  constructor
  · intro h
    obtain ⟨document, hsome, hwrite⟩ := hrefused.mp fun extra hextra ↦ h _
      (map_eq_ok.mpr ⟨extra, hextra, rfl⟩)
    split at hsome
    · rename_i hpayload
      exact ⟨hpayload, document, hsome, hwrite⟩
    · cases hsome
  · rintro ⟨hpayload, hdocument⟩ value h
    rw [if_pos hpayload] at hrefused
    obtain ⟨extra, hextra, -⟩ := map_eq_ok.mp h
    exact hrefused.mpr hdocument extra hextra

theorem recovers_iff (undefinedInt : ℤ → Int32) (undefinedCast : UInt64 → UInt64)
    (item : BedrockItem) (serverAuthoritative : Bool) (legacyStackId : Option Int32)
    (haux : data.usesAuxValue = true) :
    data.Recovers undefinedInt undefinedCast item serverAuthoritative legacyStackId ↔
      item.type ≠ 0 ∧ (NbtRefused item ∨ item.count < 256 ∧ InSigned 24 item.metadata.toInt) := by
  by_cases htype : item.type = 0
  · -- air is written as its id alone
    have hair : data.toProtoDefValue undefinedInt (some item) serverAuthoritative =
        .ok (.object [(txt "network_id", .int 0)]) := by
      have hnetwork : data.toNetwork (some item) serverAuthoritative = {} := if_pos htype
      rw [toProtoDefValue, hnetwork]
      rfl
    refine iff_of_false (fun h ↦ ?_) fun h ↦ h.1 htype
    obtain ⟨back, hback, -⟩ := h _ hair
    cases hback
  · rw [and_iff_right htype]
    have hrefused := data.toProtoDefValue_refused_iff undefinedInt serverAuthoritative haux htype
    constructor
    · intro h
      refine or_iff_not_imp_left.mpr fun hwritten ↦ ?_
      rw [← hrefused, not_forall] at hwritten
      obtain ⟨value, hvalue⟩ := hwritten
      rw [not_not] at hvalue
      obtain ⟨back, hback, -, hcount, hmetadata⟩ := h value hvalue
      obtain ⟨back', hback', -, hcount', hmetadata'⟩ := data.fromProtoDefValue_toProtoDefValue
        undefinedCast legacyStackId haux htype hvalue
      obtain rfl := Option.some.inj (Except.ok.inj (hback.symm.trans hback'))
      exact (unpack_packedAux_iff undefinedInt item.count item.metadata).mp
        ⟨hcount'.symm.trans hcount, hmetadata'.symm.trans hmetadata⟩
    · rintro (hnever | hfits) value hvalue
      · exact absurd hvalue (hrefused.mpr hnever value)
      · obtain ⟨back, hback, hsame, hcount, hmetadata⟩ := data.fromProtoDefValue_toProtoDefValue
          undefinedCast legacyStackId haux htype hvalue
        have hunpack := (unpack_packedAux_iff undefinedInt item.count item.metadata).mpr hfits
        exact ⟨back, hback, hsame, hcount.trans hunpack.1, hmetadata.trans hunpack.2⟩

/-- A small stack comes back. -/
theorem recovers_small_stack :
    Recovers { usesAuxValue := true } (fun _ ↦ 0) id { type := 5, count := 64, metadata := 7 } true
      none :=
  (recovers_iff { usesAuxValue := true } (fun _ ↦ 0) id { type := 5, count := 64, metadata := 7 }
    true none rfl).mpr ⟨by decide, .inr ⟨by decide, by decide⟩⟩

/-- A stack of 300 comes back as one of 44. -/
theorem stack_of_300 :
    ∃ value back,
      toProtoDefValue { usesAuxValue := true } (fun _ ↦ 0) (some { type := 5, count := 300 }) true =
        .ok value ∧
      fromProtoDefValue { usesAuxValue := true } id value none = .ok (some back) ∧
      back.count = 44 :=
  ⟨_, _, rfl, rfl, rfl⟩

end BedrockItemRegistryData

end BedrockProtocol
