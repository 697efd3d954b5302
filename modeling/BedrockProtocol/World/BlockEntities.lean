import BedrockProtocol.Nbt.Lookahead
import BedrockProtocol.World.BlobCache
import BedrockProtocol.World.ColumnSubChunks

/-!
# Block entities in two maps

A column of `BedrockChunk.cpp` keeps a block entity as the bytes of its tag and as a document, in
two maps under the same key.  The setters and the loop of the decoders write the maps one after
the other.  The setters that take a document keep what they are given, and the bytes are written
from it; everything else reads the document from bytes.
-/

namespace BedrockProtocol

namespace BedrockChunkColumn

open BedrockNbt (tidiedDocument FloatsRepresentable)

variable (column : BedrockChunkColumn)

/-! ## The setters -/

/-- The document of a tag, which must be all of it. -/
def documentOf (tag : List UInt8) : Option NbtDocument :=
  match BedrockNbt.read .littleVarInt {} (Cursor.start tag) with
  | .ok (document, c) => if c.rest = [] then some document else none
  | .error _ => none

def setBlockEntity (pos : BlockPosition) (tag : List UInt8) : BedrockChunkColumn :=
  { column with
    blockEntities := column.blockEntities.insert (blockEntityKey pos) tag
    blockEntityNbt :=
      match documentOf tag with
      | some document => column.blockEntityNbt.insert (blockEntityKey pos) document
      | none => column.blockEntityNbt.erase (blockEntityKey pos) }

def removeBlockEntity (pos : BlockPosition) : BedrockChunkColumn :=
  { column with
    blockEntities := column.blockEntities.erase (blockEntityKey pos)
    blockEntityNbt := column.blockEntityNbt.erase (blockEntityKey pos) }

def moveBlockEntity (pos newPos : BlockPosition) : Bool × BedrockChunkColumn :=
  let oldKey := blockEntityKey pos
  let newKey := blockEntityKey newPos
  let raw := column.blockEntities.lookup oldKey
  let document := column.blockEntityNbt.lookup oldKey
  if oldKey = newKey then (raw.isSome || document.isSome, column)
  else if raw.isNone && document.isNone then (false, column)
  else
    let tags := (column.blockEntities.erase oldKey).erase newKey
    let documents := (column.blockEntityNbt.erase oldKey).erase newKey
    (true,
      { column with
        blockEntities := raw.elim tags fun raw ↦ tags.insert newKey raw
        blockEntityNbt := document.elim documents fun document ↦ documents.insert newKey document })

/-! ## The loop of the decoders -/

/-- The key of the next tag, its document and the bytes that it took. -/
def readBlockEntity (encoding : BedrockNbtEncoding) :
    Reader (Text × NbtDocument × List UInt8) := do
  let (document, consumed) ← Reader.captured
    (Reader.mapError (fun error ↦ "invalid block-entity NBT: " ++ error)
      (BedrockNbt.read encoding {}))
  let pos ← liftM (blockEntityPosition document)
  pure (blockEntityKey pos, document, consumed)

/-- The bytes that are kept for a tag. -/
def networkTag (encoding : BedrockNbtEncoding) (document : NbtDocument) (consumed : List UInt8) :
    Except String (List UInt8) :=
  match encoding with
  | .littleVarInt => .ok consumed
  | .littleEndian => BedrockNbt.write .littleVarInt {} document

/-- `decodeBlockEntities` with what it did before it failed.  The document is there before its
bytes are written. -/
def storeBlockEntities (encoding : BedrockNbtEncoding) :
    ℕ → Cursor → BedrockChunkColumn → Except String Unit × BedrockChunkColumn
  | 0, _, column => (.ok (), column)
  | turns + 1, c, column =>
      if c.rest.head? = some NbtTagType.compound.toByte then
        match readBlockEntity encoding c with
        | .error e => (.error e, column)
        | .ok ((key, document, consumed), c) =>
            let column :=
              { column with blockEntityNbt := column.blockEntityNbt.insert key document }
            match networkTag encoding document consumed with
            | .error e => (.error e, column)
            | .ok raw =>
                storeBlockEntities encoding turns c
                  { column with blockEntities := column.blockEntities.insert key raw }
      else (.ok (), column)

def diskDecodeBlockEntities (data : List UInt8) : Except String Unit × BedrockChunkColumn :=
  storeBlockEntities .littleEndian data.length (Cursor.start data) column

/-- The documents that the loop reads, in order. -/
def tagsRead (encoding : BedrockNbtEncoding) : ℕ → Cursor → List NbtDocument
  | 0, _ => []
  | turns + 1, c =>
      if c.rest.head? = some NbtTagType.compound.toByte then
        match readBlockEntity encoding c with
        | .error _ => []
        | .ok ((_, document, _), c) => document :: tagsRead encoding turns c
      else []

/-- Every tag of the data can be written for the network. -/
def WritesBack (data : List UInt8) : Prop :=
  ∀ document ∈ tagsRead .littleEndian data.length (Cursor.start data),
    ∃ raw, BedrockNbt.write .littleVarInt {} document = .ok raw

/-- The columns of any sequence of operations.  `given` holds of the documents that the setters
take, and `elsewhere` is everything that is not about block entities. -/
inductive Reached (given : NbtDocument → Prop) : BedrockChunkColumn → Prop
  | new (x z : ℤ) : Reached given (new x z)
  | elsewhere {column column' : BedrockChunkColumn} (h : Reached given column)
      (htags : column'.blockEntities = column.blockEntities)
      (hdocuments : column'.blockEntityNbt = column.blockEntityNbt) : Reached given column'
  | setBlockEntity {column : BedrockChunkColumn} (h : Reached given column) (pos : BlockPosition)
      (tag : List UInt8) : Reached given (column.setBlockEntity pos tag)
  | setBlockEntityNbt {column column' : BedrockChunkColumn} (h : Reached given column)
      {pos : BlockPosition} {tag : NbtDocument} (hgiven : given tag)
      (hrun : column.setBlockEntityNbt pos tag = .ok column') : Reached given column'
  | addBlockEntity {column column' : BedrockChunkColumn} (h : Reached given column)
      {tag : NbtDocument} (hgiven : given tag) (hrun : column.addBlockEntity tag = .ok column') :
      Reached given column'
  | removeBlockEntity {column : BedrockChunkColumn} (h : Reached given column)
      (pos : BlockPosition) : Reached given (column.removeBlockEntity pos)
  | moveBlockEntity {column : BedrockChunkColumn} (h : Reached given column)
      (pos newPos : BlockPosition) : Reached given (column.moveBlockEntity pos newPos).2
  | diskDecode {column : BedrockChunkColumn} (h : Reached given column) {data : List UInt8}
      (hback : WritesBack data) : Reached given (column.diskDecodeBlockEntities data).2
  /-- The loop of the decoders for the network, wherever the stream stands. -/
  | networkDecode {column : BedrockChunkColumn} (h : Reached given column) (turns : ℕ)
      (c : Cursor) : Reached given (storeBlockEntities .littleVarInt turns c column).2

/-! ## What a key holds -/

/-- What both maps hold under a key. -/
def held (key : Text) : Option (List UInt8) × Option NbtDocument :=
  (column.blockEntities.lookup key, column.blockEntityNbt.lookup key)

variable {column}

/-- A change of both maps at one key. -/
theorem held_change {column' : BedrockChunkColumn} {key : Text}
    {entry : Option (List UInt8) × Option NbtDocument} (hat : column'.held key = entry)
    (htags : ∀ key', key' ≠ key →
      column'.blockEntities.lookup key' = column.blockEntities.lookup key')
    (hdocuments : ∀ key', key' ≠ key →
      column'.blockEntityNbt.lookup key' = column.blockEntityNbt.lookup key') (key' : Text) :
    column'.held key' = if key' = key then entry else column.held key' := by
  split
  · rename_i hkey
    rw [hkey, hat]
  · rename_i hkey
    rw [held, held, htags key' hkey, hdocuments key' hkey]

theorem held_withBlockEntity (key : Text) (document : NbtDocument) (raw : List UInt8) (key' : Text) :
    (column.withBlockEntity (key, document, raw)).held key' =
      if key' = key then (some raw, some document) else column.held key' := by
  refine held_change ?_ (fun key' hkey ↦ AList.lookup_insert_ne hkey)
    (fun key' hkey ↦ AList.lookup_insert_ne hkey) key'
  exact Prod.ext (AList.lookup_insert _) (AList.lookup_insert _)

theorem held_setBlockEntity (pos : BlockPosition) (tag : List UInt8) (key : Text) :
    (column.setBlockEntity pos tag).held key =
      if key = blockEntityKey pos then (some tag, documentOf tag) else column.held key := by
  cases hdocument : documentOf tag with
  | none =>
      refine held_change ?_ (fun key hkey ↦ AList.lookup_insert_ne hkey) (fun key hkey ↦ ?_) key
      · rw [held, setBlockEntity, hdocument]
        exact Prod.ext (AList.lookup_insert _) (AList.lookup_erase _ _)
      · rw [setBlockEntity, hdocument]
        exact AList.lookup_erase_ne hkey
  | some document =>
      refine held_change ?_ (fun key hkey ↦ AList.lookup_insert_ne hkey) (fun key hkey ↦ ?_) key
      · rw [held, setBlockEntity, hdocument]
        exact Prod.ext (AList.lookup_insert _) (AList.lookup_insert _)
      · rw [setBlockEntity, hdocument]
        exact AList.lookup_insert_ne hkey

theorem held_removeBlockEntity (pos : BlockPosition) (key : Text) :
    (column.removeBlockEntity pos).held key =
      if key = blockEntityKey pos then (none, none) else column.held key := by
  refine held_change ?_ (fun key hkey ↦ AList.lookup_erase_ne hkey)
    (fun key hkey ↦ AList.lookup_erase_ne hkey) key
  exact Prod.ext (AList.lookup_erase _ _) (AList.lookup_erase _ _)

/-- A setter that takes a document changes both maps or nothing. -/
theorem setBlockEntityNbt_eq_ok {column' : BedrockChunkColumn} {pos : BlockPosition}
    {tag : NbtDocument} :
    column.setBlockEntityNbt pos tag = .ok column' ↔
      ∃ raw, BedrockNbt.write .littleVarInt {} tag = .ok raw ∧
        column' = column.withBlockEntity (blockEntityKey pos, tag, raw) := by
  rw [setBlockEntityNbt, bind_eq_ok]
  refine exists_congr fun raw ↦ and_congr_right fun _ ↦ ?_
  rw [pure_eq_ok, Except.ok.injEq, eq_comm]
  rfl

/-- Writing what a key held, if anything, under a key that holds nothing. -/
theorem lookup_elim_insert {α : Type} (found : Option α) (map : AList fun _ : Text ↦ α)
    {newKey : Text} (hnew : map.lookup newKey = none) (key : Text) :
    (found.elim map fun a ↦ map.insert newKey a).lookup key =
      if key = newKey then found else map.lookup key := by
  split
  · rename_i hkey
    subst hkey
    cases found with
    | none => exact hnew
    | some a => exact AList.lookup_insert _
  · rename_i hkey
    cases found with
    | none => rfl
    | some a => exact AList.lookup_insert_ne hkey

theorem lookup_erase_erase {α : Type} (map : AList fun _ : Text ↦ α) (oldKey newKey key : Text) :
    ((map.erase oldKey).erase newKey).lookup key =
      if key = newKey ∨ key = oldKey then none else map.lookup key := by
  by_cases hnew : key = newKey
  · rw [if_pos (.inl hnew), hnew]
    exact AList.lookup_erase _ _
  · rw [AList.lookup_erase_ne hnew]
    by_cases hold : key = oldKey
    · rw [if_pos (.inr hold), hold]
      exact AList.lookup_erase _ _
    · rw [if_neg (by simp [hnew, hold])]
      exact AList.lookup_erase_ne hold

/-- Nothing is at a key when neither map has it. -/
theorem held_eq_none_iff {key : Text} :
    column.held key = (none, none) ↔
      ((column.blockEntities.lookup key).isNone && (column.blockEntityNbt.lookup key).isNone) := by
  rw [held, Prod.mk.injEq, Bool.and_eq_true, Option.isNone_iff_eq_none, Option.isNone_iff_eq_none]

/-- A move from a key that holds nothing changes nothing. -/
theorem moveBlockEntity_of_none {pos newPos : BlockPosition}
    (hkeys : blockEntityKey pos ≠ blockEntityKey newPos)
    (hnone : column.held (blockEntityKey pos) = (none, none)) :
    column.moveBlockEntity pos newPos = (false, column) := by
  rw [moveBlockEntity]
  dsimp only
  rw [if_neg hkeys, if_pos (held_eq_none_iff.mp hnone)]

/-- Every other move carries both maps along. -/
theorem held_moveBlockEntity {pos newPos : BlockPosition}
    (hkeys : blockEntityKey pos ≠ blockEntityKey newPos)
    (hsome : column.held (blockEntityKey pos) ≠ (none, none)) :
    (column.moveBlockEntity pos newPos).1 = true ∧
      ∀ key, (column.moveBlockEntity pos newPos).2.held key =
        if key = blockEntityKey newPos then column.held (blockEntityKey pos)
        else if key = blockEntityKey pos then (none, none) else column.held key := by
  rw [moveBlockEntity]
  dsimp only
  rw [if_neg hkeys, if_neg (mt held_eq_none_iff.mpr hsome)]
  refine ⟨rfl, fun key ↦ ?_⟩
  simp only [held]
  rw [lookup_elim_insert _ _ (AList.lookup_erase _ _), lookup_elim_insert _ _ (AList.lookup_erase _ _),
    lookup_erase_erase, lookup_erase_erase]
  by_cases hnew : key = blockEntityKey newPos
  · rw [if_pos hnew, if_pos hnew, if_pos hnew]
  · rw [if_neg hnew, if_neg hnew, if_neg hnew]
    by_cases hold : key = blockEntityKey pos
    · rw [if_pos (.inr hold), if_pos (.inr hold), if_pos hold]
    · rw [if_neg (by simp [hnew, hold]), if_neg (by simp [hnew, hold]), if_neg hold]

/-! ## The two maps agree -/

/-- The bytes are read, to their end, as the document without what its tags do not use. -/
def Encodes (raw : List UInt8) (document : NbtDocument) : Prop :=
  ∃ c, BedrockNbt.read .littleVarInt {} (Cursor.start raw) = .ok (tidiedDocument document, c) ∧
    c.rest = []

/-- A document that a key holds has its bytes there. -/
def Filed (given : NbtDocument → Prop) (entry : Option (List UInt8) × Option NbtDocument) : Prop :=
  ∀ document, entry.2 = some document → ∃ raw, entry.1 = some raw ∧ Encodes raw document ∧
    (tidiedDocument document = document ∨ given document)

variable {given : NbtDocument → Prop}

theorem Filed.none (raw : Option (List UInt8)) : Filed given (raw, .none) := by
  intro document h
  cases h

theorem Filed.some {raw : List UInt8} {document : NbtDocument} (h : Encodes raw document)
    (hdocument : tidiedDocument document = document ∨ given document) :
    Filed given (.some raw, .some document) := by
  intro document' hsome
  obtain rfl := Option.some.inj hsome
  exact ⟨raw, rfl, h, hdocument⟩

/-- Bytes that were written from a document. -/
theorem encodes_write {document : NbtDocument} {raw : List UInt8}
    (hfloats : FloatsRepresentable document.root)
    (hwrite : BedrockNbt.write .littleVarInt {} document = .ok raw) : Encodes raw document := by
  have hread := BedrockNbt.read_write document hfloats hwrite []
  rw [List.append_nil] at hread
  exact ⟨_, hread, rfl⟩

theorem filed_documentOf (tag : List UInt8) : Filed given (.some tag, documentOf tag) := by
  rw [documentOf]
  split
  · rename_i document c hread
    split
    · rename_i hrest
      have htidy := (BedrockNbt.yields_read _ _ _ hread).1
      exact .some ⟨c, by rw [htidy]; exact hread, hrest⟩ (.inl htidy)
    · exact .none _
  · exact .none _

/-- What a decoder keeps for a tag that it read. -/
theorem filed_networkTag {encoding : BedrockNbtEncoding} {c c' : Cursor} {key : Text}
    {document : NbtDocument} {consumed raw : List UInt8}
    (hread : readBlockEntity encoding c = .ok ((key, document, consumed), c'))
    (hraw : networkTag encoding document consumed = .ok raw) :
    Filed given (.some raw, .some document) := by
  obtain ⟨⟨document', consumed'⟩, c₁, hcaptured, hrest⟩ := Reader.run_bind_eq_ok hread
  obtain ⟨pos, c₂, hpos, hpure⟩ := Reader.run_bind_eq_ok hrest
  cases hpure
  obtain ⟨hdocument, rfl⟩ := Reader.captured_eq_ok.mp hcaptured
  rw [Reader.mapError_eq_ok] at hdocument
  obtain ⟨htidy, hfloats⟩ := BedrockNbt.yields_read _ _ _ hdocument
  refine .some ?_ (.inl htidy)
  cases encoding with
  | littleVarInt =>
      obtain rfl := Except.ok.inj hraw
      have halone := (BedrockNbt.selfContained_read _ _).read_consumed hdocument
      rw [← htidy] at halone
      exact ⟨_, halone, rfl⟩
  | littleEndian => exact encodes_write hfloats hraw

/-! ## Runs -/

/-- The loop, when every tag that it reads has its bytes. -/
theorem filed_storeBlockEntities {encoding : BedrockNbtEncoding} {turns : ℕ} {c : Cursor}
    (htags : ∀ document ∈ tagsRead encoding turns c, ∀ consumed,
      ∃ raw, networkTag encoding document consumed = .ok raw)
    (h : ∀ key, Filed given (column.held key)) (key : Text) :
    Filed given ((storeBlockEntities encoding turns c column).2.held key) := by
  induction turns generalizing c column with
  | zero => exact h key
  | succ turns ih =>
      rw [storeBlockEntities]
      rw [tagsRead] at htags
      split
      · rename_i hnext
        rw [if_pos hnext] at htags
        cases hread : readBlockEntity encoding c with
        | error e => exact h key
        | ok found =>
            obtain ⟨⟨key₁, document, consumed⟩, c₁⟩ := found
            rw [hread] at htags
            obtain ⟨raw, hraw⟩ := htags document List.mem_cons_self consumed
            simp only [hraw]
            refine ih (fun document hmem ↦ htags document (List.mem_cons_of_mem _ hmem)) fun key ↦ ?_
            change Filed given ((column.withBlockEntity (key₁, document, raw)).held key)
            rw [held_withBlockEntity]
            split
            · exact filed_networkTag hread hraw
            · exact h key
      · exact h key

theorem filed_setBlockEntityNbt {column' : BedrockChunkColumn} {pos : BlockPosition}
    {tag : NbtDocument} (hfloats : FloatsRepresentable tag.root) (hgiven : given tag)
    (hrun : column.setBlockEntityNbt pos tag = .ok column')
    (h : ∀ key, Filed given (column.held key)) (key : Text) : Filed given (column'.held key) := by
  obtain ⟨raw, hwrite, rfl⟩ := setBlockEntityNbt_eq_ok.mp hrun
  rw [held_withBlockEntity]
  split
  · exact .some (encodes_write hfloats hwrite) (.inr hgiven)
  · exact h key

theorem filed_moveBlockEntity (pos newPos : BlockPosition)
    (h : ∀ key, Filed given (column.held key)) (key : Text) :
    Filed given ((column.moveBlockEntity pos newPos).2.held key) := by
  by_cases hkeys : blockEntityKey pos = blockEntityKey newPos
  · rw [moveBlockEntity]
    dsimp only
    rw [if_pos hkeys]
    exact h key
  · by_cases hnone : column.held (blockEntityKey pos) = (none, none)
    · rw [moveBlockEntity_of_none hkeys hnone]
      exact h key
    · rw [(held_moveBlockEntity hkeys hnone).2]
      split
      · exact h _
      · split
        · exact .none _
        · exact h key

/-- In every column of a run, the documents are filed. -/
theorem Reached.filed (hgiven : ∀ tag, given tag → FloatsRepresentable tag.root)
    (h : Reached given column) (key : Text) : Filed given (column.held key) := by
  induction h generalizing key with
  | new x z => exact .none _
  | elsewhere _ htags hdocuments ih =>
      rw [held, htags, hdocuments]
      exact ih key
  | setBlockEntity _ pos tag ih =>
      rw [held_setBlockEntity]
      split
      · exact filed_documentOf tag
      · exact ih key
  | setBlockEntityNbt _ htag hrun ih =>
      exact filed_setBlockEntityNbt (hgiven _ htag) htag hrun ih key
  | addBlockEntity _ htag hrun ih =>
      obtain ⟨pos, -, hset⟩ := bind_eq_ok.mp hrun
      exact filed_setBlockEntityNbt (hgiven _ htag) htag hset ih key
  | removeBlockEntity _ pos ih =>
      rw [held_removeBlockEntity]
      split
      · exact .none _
      · exact ih key
  | moveBlockEntity _ pos newPos ih => exact filed_moveBlockEntity pos newPos ih key
  | diskDecode _ hback ih =>
      exact filed_storeBlockEntities (fun document hmem _ ↦ hback document hmem) ih key
  | networkDecode _ turns c ih =>
      exact filed_storeBlockEntities (fun document _ consumed ↦ ⟨consumed, rfl⟩) ih key

/-! ## The decoders of whole columns -/

/-- For the network the bytes are there when the tag was read. -/
theorem storeBlockEntities_network (turns : ℕ) (c : Cursor) (column : BedrockChunkColumn) :
    storeBlockEntities .littleVarInt turns c column =
      decodeBlockEntityTurns .littleVarInt turns c column := by
  induction turns generalizing c column with
  | zero => rfl
  | succ turns ih =>
      have hat : blockEntityAt .littleVarInt = readBlockEntity .littleVarInt := by
        rw [blockEntityAt, readBlockEntity]
        simp only [pure_bind]
      have hturn : column.decodeBlockEntity .littleVarInt c =
          (readBlockEntity .littleVarInt c).map fun p ↦ (column.withBlockEntity p.1, p.2) := by
        rw [decodeBlockEntity_eq, hat]
        rfl
      rw [storeBlockEntities, decodeBlockEntityTurns, hturn]
      refine if_congr Iff.rfl ?_ rfl
      cases readBlockEntity .littleVarInt c with
      | error e => rfl
      | ok found => exact ih found.2 _

namespace Reached

variable (h : Reached given column)

include h

theorem decodeBlockEntities : Yields (column.decodeBlockEntities .littleVarInt) (Reached given) := by
  refine Yields.bind_any fun turns c column' c' hrun ↦ ?_
  have hloop := (decodeBlockEntityTurns_eq_ok _ _ _ _ _).mpr ⟨c', hrun⟩
  have hreached := h.networkDecode turns c
  rw [storeBlockEntities_network, hloop] at hreached
  exact hreached

theorem setSection {sectionY : ℤ} {sub : BedrockSubChunk} {column' : BedrockChunkColumn}
    (hrun : column.setSection sectionY sub = .ok column') : Reached given column' := by
  unfold BedrockChunkColumn.setSection at hrun
  split at hrun
  · cases hrun
  · obtain rfl := Except.ok.inj hrun
    exact h.elsewhere rfl rfl

theorem loadLegacyBiomes {data : List UInt8} {column' : BedrockChunkColumn}
    (hrun : column.loadLegacyBiomes data = .ok column') : Reached given column' := by
  obtain ⟨⟨first, c⟩, -, hcolumn⟩ := bind_eq_ok.mp hrun
  obtain rfl := Except.ok.inj hcolumn
  exact h.elsewhere rfl rfl

theorem loadBiomes (type : ChunkStorageType) : Yields (column.loadBiomes type) (Reached given) :=
  Yields.bind_any fun _ ↦ Yields.pure (h.elsewhere rfl rfl)

theorem decodeSections (count i : ℕ) :
    Yields (BedrockChunkColumn.decodeSections count i column) (Reached given) := by
  induction count generalizing i column with
  | zero => exact Yields.pure h
  | succ count ih =>
      refine Yields.bind_any fun found ↦ Yields.bind (P := Reached given) ?_ fun column' h' ↦
        ih h' (i + 1)
      exact Yields.lift fun column' hrun ↦ h.setSection hrun

theorem readSections (sectionCount : ℤ) :
    Yields (column.readSections sectionCount) (Reached given) := by
  rw [BedrockChunkColumn.readSections]
  split
  · exact Yields.pure h
  · have hcleared : Reached given
        { column with sections := List.replicate (column.maxCY - column.minCY).toNat none } :=
      h.elsewhere rfl rfl
    exact hcleared.decodeSections _ 0

theorem readLegacyBiomes : Yields column.readLegacyBiomes (Reached given) := by
  refine Yields.bind_any fun left ↦ ?_
  split
  · exact Yields.throw _
  · exact Yields.bind_any fun data ↦ Yields.lift fun column' hrun ↦ h.loadLegacyBiomes hrun

theorem readTail (message : String) : Yields (column.readTail message) (Reached given) := by
  refine Yields.bind_any fun left ↦ ?_
  split
  · exact h.decodeBlockEntities
  · exact Yields.bind_any fun _ ↦ h.decodeBlockEntities

theorem networkDecodeNoCache {payload : List UInt8} {sectionCount : ℤ} {use3DBiomes : Bool}
    {column' : BedrockChunkColumn}
    (hrun : column.networkDecodeNoCache payload sectionCount use3DBiomes = .ok column') :
    Reached given column' := by
  obtain ⟨⟨decoded, c⟩, hread, rfl⟩ := map_eq_ok.mp hrun
  refine Yields.bind (h.readSections sectionCount) (fun column₁ h₁ ↦ ?_) _ _ _ hread
  refine Yields.bind (P := Reached given) ?_ fun column₂ h₂ ↦ h₂.readTail _
  cases use3DBiomes with
  | true => exact h₁.loadBiomes .runtime
  | false => exact h₁.readLegacyBiomes

/-- The column is changed where it is, also when the payload is bad. -/
theorem networkDecodeSubChunkNoCache (sectionY : ℤ) (payload : List UInt8) :
    Reached given (column.networkDecodeSubChunkNoCache sectionY payload).2 := by
  rw [BedrockChunkColumn.networkDecodeSubChunkNoCache]
  split
  · exact h
  · split
    · exact h
    · rename_i hset
      rw [← storeBlockEntities_network]
      exact (h.setSection hset).networkDecode _ _

theorem loadBlob {resolver : Option BedrockBlockStateResolver} {hasSectionBlobs : Bool}
    {entry : BlobEntry} {column' : BedrockChunkColumn}
    (hrun : column.loadBlob resolver hasSectionBlobs entry = .ok column') :
    Reached given column' := by
  unfold BedrockChunkColumn.loadBlob at hrun
  split at hrun
  · split at hrun
    · exact h.loadLegacyBiomes hrun
    · obtain ⟨⟨decoded, c⟩, hread, rfl⟩ := map_eq_ok.mp hrun
      exact h.loadBiomes _ _ _ _ hread
  · obtain ⟨⟨found, c⟩, -, hrest⟩ := bind_eq_ok.mp hrun
    dsimp only at hrest
    split at hrest
    · cases hrest
    · exact h.setSection hrest

theorem loadHash {blobStore : BedrockBlobStore} {resolver : Option BedrockBlockStateResolver}
    {hasSectionBlobs : Bool} {misses : List UInt64} {hash : UInt64}
    {found : List UInt64 × BedrockChunkColumn}
    (hrun : BedrockChunkColumn.loadHash blobStore resolver hasSectionBlobs (misses, column) hash =
      .ok found) : Reached given found.2 := by
  unfold BedrockChunkColumn.loadHash at hrun
  split at hrun
  · obtain rfl := Except.ok.inj hrun
    exact h
  · obtain ⟨column', hload, hcolumn⟩ := bind_eq_ok.mp hrun
    obtain rfl := Except.ok.inj hcolumn
    exact h.loadBlob hload

theorem loadHashes {blobStore : BedrockBlobStore} {resolver : Option BedrockBlockStateResolver}
    {hasSectionBlobs : Bool} {hashes misses : List UInt64} {found : List UInt64 × BedrockChunkColumn}
    (hrun : hashes.foldlM (BedrockChunkColumn.loadHash blobStore resolver hasSectionBlobs)
      (misses, column) = .ok found) : Reached given found.2 := by
  induction hashes generalizing misses column with
  | nil =>
      obtain rfl := Except.ok.inj hrun
      exact h
  | cons hash hashes ih =>
      rw [List.foldlM_cons] at hrun
      obtain ⟨turned, hturn, hrest⟩ := bind_eq_ok.mp hrun
      exact ih (h.loadHash hturn) hrest

theorem readCachedPayload {payload : List UInt8} {column' : BedrockChunkColumn}
    (hrun : column.readCachedPayload payload = .ok column') : Reached given column' := by
  unfold BedrockChunkColumn.readCachedPayload at hrun
  split at hrun
  · obtain rfl := Except.ok.inj hrun
    exact h
  · obtain ⟨⟨decoded, c⟩, hread, rfl⟩ := map_eq_ok.mp hrun
    exact Yields.bind_any (fun _ ↦ h.decodeBlockEntities) _ _ _ hread

theorem networkDecodeCached {blobHashes : List UInt64} {blobStore : BedrockBlobStore}
    {payload : List UInt8} {resolver : Option BedrockBlockStateResolver}
    {found : List UInt64 × BedrockChunkColumn}
    (hrun : column.networkDecodeCached blobHashes blobStore payload resolver = .ok found) :
    Reached given found.2 := by
  obtain ⟨column₁, hpayload, hrest⟩ := bind_eq_ok.mp hrun
  have h₁ := h.readCachedPayload hpayload
  dsimp only at hrest
  split at hrest
  · obtain rfl := Except.ok.inj hrest
    exact h₁
  · have hcleared : Reached given
        { column₁ with sections := List.replicate (column₁.maxCY - column₁.minCY).toNat none } :=
      h₁.elsewhere rfl rfl
    exact hcleared.loadHashes hrest

end Reached

/-! ## The documents are the bytes, and moves carry both -/

/-- A document that a key holds is read from the bytes there, and a move carries both along. -/
theorem blockEntities_agree (hgiven : ∀ tag, given tag → FloatsRepresentable tag.root)
    (h : Reached given column) :
    (∀ key document, column.blockEntityNbt.lookup key = some document →
      ∃ raw, column.blockEntities.lookup key = some raw ∧
        (∃ c, BedrockNbt.read .littleVarInt {} (Cursor.start raw) =
          .ok (tidiedDocument document, c) ∧ c.rest = []) ∧
        (tidiedDocument document = document ∨ given document)) ∧
    ∀ pos newPos, blockEntityKey pos ≠ blockEntityKey newPos →
      (column.held (blockEntityKey pos) = (none, none) →
        column.moveBlockEntity pos newPos = (false, column)) ∧
      (column.held (blockEntityKey pos) ≠ (none, none) →
        ∃ column', column.moveBlockEntity pos newPos = (true, column') ∧
          column'.held (blockEntityKey newPos) = column.held (blockEntityKey pos) ∧
          column'.held (blockEntityKey pos) = (none, none) ∧
          ∀ key, key ≠ blockEntityKey pos → key ≠ blockEntityKey newPos →
            column'.held key = column.held key) := by
  refine ⟨fun key document hdocument ↦ h.filed hgiven key document hdocument,
    fun pos newPos hkeys ↦ ⟨fun hnone ↦ moveBlockEntity_of_none hkeys hnone, fun hsome ↦ ?_⟩⟩
  obtain ⟨htrue, hheld⟩ := held_moveBlockEntity hkeys hsome
  refine ⟨_, Prod.ext htrue rfl, ?_, ?_, fun key hold hnew ↦ ?_⟩
  · rw [hheld, if_pos rfl]
  · rw [hheld, if_neg hkeys, if_pos rfl]
  · rw [hheld, if_neg hnew, if_neg hold]

/-- An empty compound whose string field is not empty. -/
def annotatedTag : NbtDocument := ⟨[], { type := .compound, stringValue := txt "x" }⟩

def filledPos : BlockPosition := { x := 1, y := 2, z := 3 }

def emptyPos : BlockPosition := { x := 0, y := 0, z := 0 }

def annotatedColumn : BedrockChunkColumn :=
  (new 0 0).withBlockEntity (blockEntityKey filledPos, annotatedTag, [10, 0, 0])

theorem floatsRepresentable_annotatedTag : FloatsRepresentable annotatedTag.root :=
  .intro (by simp [annotatedTag]) (by simp [annotatedTag]) (by simp [annotatedTag])

theorem reached_annotatedColumn : Reached (· = annotatedTag) annotatedColumn :=
  .setBlockEntityNbt (.new 0 0) rfl (setBlockEntityNbt_eq_ok.mpr ⟨_, rfl, rfl⟩)

theorem blockEntities_agree_annotated :
    (∃ raw, annotatedColumn.blockEntities.lookup (blockEntityKey filledPos) = some raw ∧
      ∃ c, BedrockNbt.read .littleVarInt {} (Cursor.start raw) =
        .ok (tidiedDocument annotatedTag, c) ∧ c.rest = []) ∧
    ∃ column', annotatedColumn.moveBlockEntity filledPos emptyPos = (true, column') ∧
      column'.held (blockEntityKey emptyPos) = annotatedColumn.held (blockEntityKey filledPos) := by
  obtain ⟨hmaps, hmoves⟩ := blockEntities_agree
    (fun tag (htag : tag = annotatedTag) ↦ htag ▸ floatsRepresentable_annotatedTag)
    reached_annotatedColumn
  have hnbt : annotatedColumn.blockEntityNbt.lookup (blockEntityKey filledPos) =
      some annotatedTag := AList.lookup_insert _
  obtain ⟨raw, hraw, hread, -⟩ := hmaps _ _ hnbt
  obtain ⟨column', hmove, hheld, -⟩ := (hmoves filledPos emptyPos (by decide)).2
    (by rw [held, hnbt]; simp)
  exact ⟨⟨raw, hraw, hread⟩, column', hmove, hheld⟩

/-- The text is not in the bytes, and a move from an empty position leaves what is at the other. -/
theorem annotatedTag_not_in_bytes :
    Reached (fun tag ↦ tag.root.type ≠ .endTag ∧ FloatsRepresentable tag.root) annotatedColumn ∧
    (∃ document raw,
      annotatedColumn.blockEntityNbt.lookup (blockEntityKey filledPos) = some document ∧
      annotatedColumn.blockEntities.lookup (blockEntityKey filledPos) = some raw ∧
      ∀ c, BedrockNbt.read .littleVarInt {} (Cursor.start raw) ≠ .ok (document, c)) ∧
    blockEntityKey emptyPos ≠ blockEntityKey filledPos ∧
    (annotatedColumn.moveBlockEntity emptyPos filledPos).2.held (blockEntityKey filledPos) ≠
      annotatedColumn.held (blockEntityKey emptyPos) := by
  have hkeys : blockEntityKey emptyPos ≠ blockEntityKey filledPos := by decide
  have hnone : annotatedColumn.held (blockEntityKey emptyPos) = (none, none) := by
    rw [annotatedColumn, held_withBlockEntity, if_neg hkeys]
    rfl
  refine ⟨.setBlockEntityNbt (.new 0 0) ⟨by decide, floatsRepresentable_annotatedTag⟩
      (setBlockEntityNbt_eq_ok.mpr ⟨_, rfl, rfl⟩),
    ⟨annotatedTag, [10, 0, 0], AList.lookup_insert _, AList.lookup_insert _, fun c hread ↦ ?_⟩,
    hkeys, ?_⟩
  · have hplain : BedrockNbt.read .littleVarInt {} (Cursor.start [10, 0, 0]) =
        .ok (⟨[], { type := .compound }⟩, ⟨3, []⟩) := rfl
    rw [hplain] at hread
    have htext : ([] : List UInt8) = txt "x" :=
      congrArg (fun p ↦ p.1.root.stringValue) (Except.ok.inj hread)
    exact absurd htext (by decide)
  · rw [moveBlockEntity_of_none hkeys hnone, hnone, annotatedColumn, held_withBlockEntity,
      if_pos rfl]
    simp

end BedrockChunkColumn

end BedrockProtocol
