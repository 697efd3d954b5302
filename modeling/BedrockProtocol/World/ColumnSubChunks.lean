import BedrockProtocol.World.BedrockWorld

/-!
# Single sub-chunks of a tracked column

`networkDecodeSubChunkNoCache` of `BedrockChunk.cpp`, which puts one sub-chunk and its block
entities into a column of the world.  It changes the column where it is, so that a block entity
that cannot be read leaves the section and the block entities before it behind.
-/

namespace BedrockProtocol

namespace BedrockChunkColumn

/-- A change that leaves the column alone where it fails. -/
def changed (column : BedrockChunkColumn) :
    Except String BedrockChunkColumn → Except String Unit × BedrockChunkColumn
  | .ok column => (.ok (), column)
  | .error e => (.error e, column)

/-- The loop over the block entities, with what it did before it failed. -/
def decodeBlockEntityTurns (encoding : BedrockNbtEncoding) :
    ℕ → Cursor → BedrockChunkColumn → Except String Unit × BedrockChunkColumn
  | 0, _, column => (.ok (), column)
  | turns + 1, c, column =>
      if c.rest.head? = some NbtTagType.compound.toByte then
        match column.decodeBlockEntity encoding c with
        | .error e => (.error e, column)
        | .ok (column, c) => decodeBlockEntityTurns encoding turns c column
      else (.ok (), column)

def networkDecodeSubChunkNoCache (column : BedrockChunkColumn) (sectionY : ℤ)
    (payload : List UInt8) : Except String Unit × BedrockChunkColumn :=
  let fresh : BedrockSubChunk := { y := Int8.ofInt sectionY, subChunkVersion := 9 }
  match fresh.decodeFrom .runtime 0 none (Cursor.start payload) with
  | .error e => (.error e, column)
  | .ok (found, c) =>
      match column.setSection found.y.toInt found with
      | .error e => (.error e, column)
      | .ok column => decodeBlockEntityTurns .littleVarInt c.remaining c column

/-- What a section height needs of a column. -/
def SameBounds (column column' : BedrockChunkColumn) : Prop :=
  column.minCY = column'.minCY ∧ column.sections.length = column'.sections.length

variable {column column' other : BedrockChunkColumn}

namespace SameBounds

theorem refl (column : BedrockChunkColumn) : column.SameBounds column := ⟨rfl, rfl⟩

theorem symm (h : column.SameBounds column') : column'.SameBounds column :=
  ⟨h.1.symm, h.2.symm⟩

theorem trans (h : column.SameBounds column') (h' : column'.SameBounds other) :
    column.SameBounds other := ⟨h.1.trans h'.1, h.2.trans h'.2⟩

theorem slot_isSome (h : column.SameBounds column') (sectionY : ℤ) :
    (slot column.sections (column.co + sectionY)).isSome =
      (slot column'.sections (column'.co + sectionY)).isSome := by
  rw [Bool.eq_iff_iff, slot_isSome_iff, slot_isSome_iff, co, co, h.1, h.2]

end SameBounds

/-! ## Sections -/

theorem setSection_sameBounds {sectionY : ℤ} {sub : BedrockSubChunk}
    (hrun : column.setSection sectionY sub = .ok column') : column'.SameBounds column := by
  unfold setSection at hrun
  split at hrun
  · cases hrun
  · obtain rfl := Except.ok.inj hrun
    exact ⟨rfl, List.length_set⟩

/-- The bounds decide whether a section has a place, and nothing else does. -/
theorem setSection_cases (column : BedrockChunkColumn) (sectionY : ℤ) (sub : BedrockSubChunk) :
    ((slot column.sections (column.co + sectionY)).isSome = true ∧
        ∃ column', column.setSection sectionY sub = .ok column') ∨
      (slot column.sections (column.co + sectionY)).isSome = false ∧
        column.setSection sectionY sub = .error "section Y outside chunk bounds" := by
  rw [setSection]
  cases slot column.sections (column.co + sectionY) with
  | none => exact .inr ⟨rfl, rfl⟩
  | some found => exact .inl ⟨rfl, _, rfl⟩

theorem changed_setSection_sameBounds (sectionY : ℤ) (sub : BedrockSubChunk) :
    (column.changed (column.setSection sectionY sub)).2.SameBounds column := by
  cases hset : column.setSection sectionY sub with
  | error e => exact .refl column
  | ok column' => exact setSection_sameBounds hset

theorem SameBounds.changed_setSection (h : column.SameBounds column') (sectionY : ℤ)
    (sub : BedrockSubChunk) :
    (column.changed (column.setSection sectionY sub)).1 =
      (column'.changed (column'.setSection sectionY sub)).1 := by
  rcases column.setSection_cases sectionY sub with ⟨hsome, c, hc⟩ | ⟨hnone, he⟩
  · rcases column'.setSection_cases sectionY sub with ⟨-, c', hc'⟩ | ⟨hnone, -⟩
    · rw [hc, hc']
      rfl
    · rw [h.slot_isSome, hnone] at hsome
      cases hsome
  · rcases column'.setSection_cases sectionY sub with ⟨hsome, -⟩ | ⟨-, he'⟩
    · rw [h.slot_isSome, hsome] at hnone
      cases hnone
    · rw [he, he']
      rfl

/-! ## Block entities -/

/-- The part of a turn that does not look at the column. -/
def blockEntityAt (encoding : BedrockNbtEncoding) : Reader (Text × NbtDocument × List UInt8) := do
  let (document, consumed) ← Reader.captured
    (Reader.mapError (fun error ↦ "invalid block-entity NBT: " ++ error)
      (BedrockNbt.read encoding {}))
  let pos ← liftM (blockEntityPosition document)
  let raw ← match encoding with
    | .littleVarInt => pure consumed
    | .littleEndian => liftM (BedrockNbt.write .littleVarInt {} document)
  pure (blockEntityKey pos, document, raw)

/-- The column with one more block entity. -/
def withBlockEntity (column : BedrockChunkColumn) (entity : Text × NbtDocument × List UInt8) :
    BedrockChunkColumn :=
  { column with
    blockEntityNbt := column.blockEntityNbt.insert entity.1 entity.2.1
    blockEntities := column.blockEntities.insert entity.1 entity.2.2 }

theorem decodeBlockEntity_eq (column : BedrockChunkColumn) (encoding : BedrockNbtEncoding) :
    column.decodeBlockEntity encoding = column.withBlockEntity <$> blockEntityAt encoding := by
  rw [decodeBlockEntity, blockEntityAt]
  cases encoding with
  | littleVarInt =>
      simp only [map_bind, map_pure]
      rfl
  | littleEndian =>
      simp only [map_bind, map_pure]
      rfl

/-- One turn on two columns. -/
theorem decodeBlockEntity_cases (encoding : BedrockNbtEncoding) (c : Cursor) :
    (∃ e, ∀ column : BedrockChunkColumn, column.decodeBlockEntity encoding c = .error e) ∨
      ∃ entity c', ∀ column : BedrockChunkColumn,
        column.decodeBlockEntity encoding c = .ok (column.withBlockEntity entity, c') := by
  cases hrun : blockEntityAt encoding c with
  | error e =>
      refine .inl ⟨e, fun column ↦ ?_⟩
      rw [decodeBlockEntity_eq]
      change Except.map (fun p : _ × Cursor ↦ (column.withBlockEntity p.1, p.2)) _ = _
      rw [hrun]
      rfl
  | ok p =>
      refine .inr ⟨p.1, p.2, fun column ↦ ?_⟩
      rw [decodeBlockEntity_eq]
      change Except.map (fun p : _ × Cursor ↦ (column.withBlockEntity p.1, p.2)) _ = _
      rw [hrun]
      rfl

/-- The loop ends alike on any two columns. -/
theorem decodeBlockEntityTurns_result (encoding : BedrockNbtEncoding) (turns : ℕ) (c : Cursor)
    (column column' : BedrockChunkColumn) :
    (decodeBlockEntityTurns encoding turns c column).1 =
      (decodeBlockEntityTurns encoding turns c column').1 := by
  induction turns generalizing c column column' with
  | zero => rfl
  | succ turns ih =>
      rw [decodeBlockEntityTurns, decodeBlockEntityTurns]
      by_cases hnext : c.rest.head? = some NbtTagType.compound.toByte
      · rw [if_pos hnext, if_pos hnext]
        rcases decodeBlockEntity_cases encoding c with ⟨e, he⟩ | ⟨entity, c', hread⟩
        · rw [he column, he column']
        · rw [hread column, hread column']
          exact ih c' _ _
      · rw [if_neg hnext, if_neg hnext]

theorem decodeBlockEntityTurns_sameBounds (encoding : BedrockNbtEncoding) (turns : ℕ) (c : Cursor)
    (column : BedrockChunkColumn) :
    (decodeBlockEntityTurns encoding turns c column).2.SameBounds column := by
  induction turns generalizing c column with
  | zero => exact .refl column
  | succ turns ih =>
      rw [decodeBlockEntityTurns]
      by_cases hnext : c.rest.head? = some NbtTagType.compound.toByte
      · rw [if_pos hnext]
        rcases decodeBlockEntity_cases encoding c with ⟨e, he⟩ | ⟨entity, c', hread⟩
        · rw [he column]
          exact .refl column
        · rw [hread column]
          exact (ih c' _).trans ⟨rfl, rfl⟩
      · rw [if_neg hnext]
        exact .refl column

/-- Where the loop ends without an error, it is the reader of a whole column's block entities. -/
theorem decodeBlockEntityTurns_eq_ok (encoding : BedrockNbtEncoding) (turns : ℕ) (c : Cursor)
    (column column' : BedrockChunkColumn) :
    decodeBlockEntityTurns encoding turns c column = (.ok (), column') ↔
      ∃ c', decodeBlockEntityLoop encoding turns column c = .ok (column', c') := by
  induction turns generalizing c column with
  | zero =>
      constructor
      · intro h
        obtain rfl := (Prod.mk.inj h).2
        exact ⟨c, rfl⟩
      · rintro ⟨c', h⟩
        cases h
        rfl
  | succ turns ih =>
      have hpeek : Reader.peek c = .ok (c.rest.head?, c) := rfl
      rw [decodeBlockEntityTurns, decodeBlockEntityLoop, Reader.bind_run hpeek]
      by_cases hnext : c.rest.head? = some NbtTagType.compound.toByte
      · rw [if_pos hnext, if_pos hnext]
        rcases decodeBlockEntity_cases encoding c with ⟨e, he⟩ | ⟨entity, c₁, hread⟩
        · rw [he column, Reader.bind_error (he column)]
          simp
        · rw [hread column, Reader.bind_run (hread column)]
          exact ih c₁ _
      · rw [if_neg hnext, if_neg hnext]
        constructor
        · intro h
          obtain rfl := (Prod.mk.inj h).2
          exact ⟨c, rfl⟩
        · rintro ⟨c', h⟩
          cases h
          rfl

/-! ## Sub-chunks -/

theorem networkDecodeSubChunkNoCache_sameBounds (column : BedrockChunkColumn) (sectionY : ℤ)
    (payload : List UInt8) :
    (column.networkDecodeSubChunkNoCache sectionY payload).2.SameBounds column := by
  rw [networkDecodeSubChunkNoCache]
  cases BedrockSubChunk.decodeFrom _ .runtime 0 none (Cursor.start payload) with
  | error e => exact .refl column
  | ok found =>
      dsimp only
      cases hset : column.setSection found.1.y.toInt found.1 with
      | error e => exact .refl column
      | ok column' =>
          exact (decodeBlockEntityTurns_sameBounds _ _ _ _).trans (setSection_sameBounds hset)

/-- A column matters by its bounds only for whether a sub-chunk can be read into it. -/
theorem SameBounds.networkDecodeSubChunkNoCache (h : column.SameBounds column') (sectionY : ℤ)
    (payload : List UInt8) :
    (column.networkDecodeSubChunkNoCache sectionY payload).1 =
      (column'.networkDecodeSubChunkNoCache sectionY payload).1 := by
  rw [BedrockChunkColumn.networkDecodeSubChunkNoCache,
    BedrockChunkColumn.networkDecodeSubChunkNoCache]
  cases BedrockSubChunk.decodeFrom _ .runtime 0 none (Cursor.start payload) with
  | error e => rfl
  | ok found =>
      dsimp only
      rcases column.setSection_cases found.1.y.toInt found.1 with ⟨hsome, c, hc⟩ | ⟨hnone, he⟩
      · rcases column'.setSection_cases found.1.y.toInt found.1 with ⟨-, c', hc'⟩ | ⟨hnone, -⟩
        · rw [hc, hc']
          exact decodeBlockEntityTurns_result _ _ _ _ _
        · rw [h.slot_isSome, hnone] at hsome
          cases hsome
      · rcases column'.setSection_cases found.1.y.toInt found.1 with ⟨hsome, -⟩ | ⟨-, he'⟩
        · rw [h.slot_isSome, hsome] at hnone
          cases hnone
        · rw [he, he']

end BedrockChunkColumn

end BedrockProtocol
