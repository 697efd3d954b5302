import BedrockProtocol.World.ColumnRoundTrip

/-!
# The biomes of a column as a blob

The writer of the blob uses the runtime format and its reader the persistent
one.  They agree on proxies and on sections of a single biome.
-/

namespace BedrockProtocol

namespace BedrockBiomeSection

theorem count_zero_writeRuntimeBiomeId {value : UInt32} (h : value.toNat < 2 ^ 31) :
    (writeRuntimeBiomeId value).count 0 = if value = 0 then 1 else 0 := by
  have hshift := toNat_shiftLeft_one h
  rw [writeRuntimeBiomeId, BinaryStream.writeVarUInt, count_zero_leb128 (by omega), hshift]
  by_cases hzero : value = 0
  · simp [hzero]
  · have hne : value.toNat ≠ 0 := fun heq ↦ hzero (UInt32.toNat_inj.mp heq)
    rw [if_neg hzero, if_neg (by omega)]

theorem count_zero_writeRuntimeBiomeIds {ids : List UInt32} (h : ∀ id ∈ ids, id.toNat < 2 ^ 31) :
    (ids.flatMap writeRuntimeBiomeId).count 0 = ids.count 0 := by
  induction ids with
  | nil => rfl
  | cons id ids ih =>
      rw [List.flatMap_cons, List.count_append, ih fun a ha ↦ h a (by simp [ha]),
        count_zero_writeRuntimeBiomeId (h id (by simp)), List.count_cons, Nat.add_comm]
      simp only [beq_iff_eq]

theorem length_writeRuntimeBiomeId_pos (value : UInt32) : 0 < (writeRuntimeBiomeId value).length :=
  length_leb128_pos _ _

/-- The palette of several biomes in the runtime format, as the first word of
the persistent one. -/
theorem Writable.palette_large {area : BedrockBiomeSection} (h : area.Writable)
    (hmany : 2 ≤ area.palette.length) {b₀ b₁ b₂ b₃ : UInt8} {more tail : List UInt8}
    (htail : ∀ first ∈ tail.head?, first ≠ 0)
    (hbytes : writeRuntimeBiomeId (UInt32.ofNat area.palette.length) ++
      area.palette.flatMap writeRuntimeBiomeId ++ tail = b₀ :: b₁ :: b₂ :: b₃ :: more) :
    2 ^ 16 ≤ leValue [b₀, b₁, b₂, b₃] := by
  generalize hwritten : writeRuntimeBiomeId (UInt32.ofNat area.palette.length) ++
    area.palette.flatMap writeRuntimeBiomeId = written at hbytes
  have hlength : (UInt32.ofNat area.palette.length).toNat = area.palette.length := by
    have := h.length_lt
    rw [UInt32.toNat_ofNat']
    omega
  have hcount : written.count 0 ≤ 1 := by
    have hne : UInt32.ofNat area.palette.length ≠ 0 := by
      intro heq
      rw [heq, UInt32.toNat_zero] at hlength
      omega
    rw [← hwritten, List.count_append, count_zero_writeRuntimeBiomeId (by rw [hlength]; exact h.length_lt),
      if_neg hne, Nat.zero_add, count_zero_writeRuntimeBiomeIds h.id_lt]
    exact List.nodup_iff_count_le_one.mp h.tight.nodup 0
  have hthree : 3 ≤ written.length := by
    have hids : area.palette.length ≤ (area.palette.flatMap writeRuntimeBiomeId).length := by
      rw [List.length_flatMap, ← List.length_map (f := fun id ↦ (writeRuntimeBiomeId id).length)]
      refine List.length_le_sum_of_one_le _ ?_
      intro n hn
      obtain ⟨id, -, rfl⟩ := List.mem_map.mp hn
      exact length_writeRuntimeBiomeId_pos id
    have hfirst := length_writeRuntimeBiomeId_pos (UInt32.ofNat area.palette.length)
    rw [← hwritten, List.length_append]
    omega
  have hhigh : b₂ ≠ 0 ∨ b₃ ≠ 0 := by
    by_contra hzero
    obtain ⟨rfl, rfl⟩ : b₂ = 0 ∧ b₃ = 0 := by tauto
    match written, hthree with
    | [c₀, c₁, c₂], _ =>
        simp at hbytes
        obtain ⟨-, -, -, rfl⟩ := hbytes
        exact htail 0 rfl rfl
    | c₀ :: c₁ :: c₂ :: c₃ :: rest, _ =>
        simp at hbytes
        obtain ⟨-, -, rfl, rfl, -⟩ := hbytes
        simp only [List.count_cons, beq_self_eq_true, if_true] at hcount
        omega
  have hpos (b : UInt8) (hb : b ≠ 0) : 0 < b.toNat :=
    Nat.pos_of_ne_zero fun heq ↦ hb (UInt8.toNat_inj.mp heq)
  simp only [leValue]
  rcases hhigh with hb | hb
  · have := hpos _ hb
    omega
  · have := hpos _ hb
    omega

theorem Writable.not_readPalette {area into area' : BedrockBiomeSection} (h : area.Writable)
    (hmany : 2 ≤ area.palette.length) {tail : List UInt8} (htail : ∀ first ∈ tail.head?, first ≠ 0)
    {offset : ℕ} {c : Cursor}
    (hshort : (writeRuntimeBiomeId (UInt32.ofNat area.palette.length) ++
      area.palette.flatMap writeRuntimeBiomeId ++ tail).length < 2 ^ 18)
    (hread : into.readPalette .networkPersistence (neededBits (area.palette.length - 1))
      ⟨offset, area.biomes.write ++ (writeRuntimeBiomeId (UInt32.ofNat area.palette.length) ++
        area.palette.flatMap writeRuntimeBiomeId ++ tail)⟩ = .ok (area', c)) : False := by
  have hpos := @neededBits_pos (area.palette.length - 1) (by omega)
  have hle := neededBits_le (area.palette.length - 1)
  have hwidth : max 1 (neededBits (area.palette.length - 1)) = area.biomes.bitsPerBlock := by
    have := h.tight.width
    omega
  let storage := PalettedStorage.ofBits (max 1 (neededBits (area.palette.length - 1)))
    (by omega) (by omega)
  have hstorage := @PalettedStorage.reads_read area.biomes storage hwidth
  unfold readPalette at hread
  rw [if_neg (by omega), PalettedStorage.new_eq_ok hle] at hread
  change (storage.read ⟨offset, _⟩ >>= fun p ↦ _) = _ at hread
  rw [hstorage _ _, ok_bind] at hread
  dsimp only at hread
  generalize offset + area.biomes.write.length = start at hread
  simp only [reduceCtorEq, ↓reduceIte] at hread
  change (readU32LE ⟨start, _⟩ >>= fun p ↦ _) = _ at hread
  obtain ⟨⟨paletteLength, c₁⟩, hlength, hread⟩ := bind_eq_ok.mp hread
  change (Reader.many readU32LE paletteLength.toNat c₁ >>= fun p ↦ _) = _ at hread
  obtain ⟨⟨ids, c₂⟩, hids, -⟩ := bind_eq_ok.mp hread
  have hword : Consumes readU32LE 4 := Consumes.take.map.map
  have hfour : c₁.rest.length + 4 ≤ _ := hword _ _ _ hlength
  have hall := (hword.many _) _ _ _ hids
  generalize hwritten : writeRuntimeBiomeId (UInt32.ofNat area.palette.length) ++
    area.palette.flatMap writeRuntimeBiomeId ++ tail = written at hlength hfour hshort
  match written, hfour with
  | b₀ :: b₁ :: b₂ :: b₃ :: more, _ =>
      have hlarge := h.palette_large hmany htail hwritten
      have hread : readU32LE ⟨start, b₀ :: b₁ :: b₂ :: b₃ :: more⟩ =
          .ok (UInt32.ofNat (leValue [b₀, b₁, b₂, b₃]), ⟨start + 4, more⟩) := rfl
      rw [hread] at hlength
      cases hlength
      have hlt : leValue [b₀, b₁, b₂, b₃] < 2 ^ 32 :=
        (leValue_lt [b₀, b₁, b₂, b₃]).trans_eq (by norm_num)
      rw [UInt32.toNat_ofNat', Nat.mod_eq_of_lt hlt] at hall
      simp only [List.length_cons] at hshort
      dsimp only at hall
      omega

/-- Several biomes in the runtime format are too long for the persistent
reader. -/
theorem Writable.not_read {area into area' : BedrockBiomeSection} (h : area.Writable)
    (hmany : 2 ≤ area.palette.length) {tail : List UInt8} (htail : ∀ first ∈ tail.head?, first ≠ 0)
    {offset : ℕ} (hshort : (area.exportTo .runtime ++ tail).length < 2 ^ 18) {c : Cursor}
    (hread : into.read .networkPersistence ⟨offset, area.exportTo .runtime ++ tail⟩ =
      .ok (area', c)) : False := by
  have htype : (UInt8.ofNat ((neededBits (area.palette.length - 1) <<< 1) ||| 1)).toNat =
      2 * neededBits (area.palette.length - 1) + 1 :=
    Layer.paletteType_eq (neededBits_le _) (by omega)
  obtain ⟨-, -, hne⟩ := h.exportTo_eq
  have hpos := @neededBits_pos (area.palette.length - 1) (by omega)
  have hexport : area.exportTo .runtime =
      UInt8.ofNat ((neededBits (area.palette.length - 1) <<< 1) ||| 1) ::
        (area.biomes.write ++ (writeRuntimeBiomeId (UInt32.ofNat area.palette.length) ++
          area.palette.flatMap writeRuntimeBiomeId)) := by
    rw [exportTo, h.not_proxy, h.lastIndex]
    simp only [Bool.false_eq_true, ↓reduceIte]
    rw [if_neg (by omega)]
  have hwidth : area.biomes.bitsPerBlock = neededBits (area.palette.length - 1) := by
    have := h.tight.width
    omega
  have hlength : (area.exportTo .runtime ++ tail).length = 1 + (area.biomes.write.length +
      (writeRuntimeBiomeId (UInt32.ofNat area.palette.length) ++
        area.palette.flatMap writeRuntimeBiomeId ++ tail).length) := by
    rw [hexport]
    simp only [List.cons_append, List.append_assoc, List.length_cons, List.length_append]
    omega
  rw [hlength] at hshort
  rw [hexport] at hread
  have hbits : (2 * neededBits (area.palette.length - 1) + 1) >>> 1 =
      neededBits (area.palette.length - 1) := by
    rw [Nat.shiftRight_eq_div_pow]
    omega
  have hfirst (type : UInt8) (rest : List UInt8) :
      BinaryStream.readU8 ⟨offset, type :: rest⟩ = .ok (type, ⟨offset + 1, rest⟩) := rfl
  rw [List.cons_append, read, Reader.bind_run (hfirst _ _), if_neg hne, htype,
    if_neg (by rw [Nat.and_one_is_mod]; omega), hbits, List.append_assoc] at hread
  exact h.not_readPalette hmany htail (by omega) hread

end BedrockBiomeSection

namespace BedrockChunkColumn

variable {column column' : BedrockChunkColumn}

/-- A biome section that was read back. -/
def SameArea (area area' : BedrockBiomeSection) : Prop :=
  area'.proxy = area.proxy ∧
    (area.proxy = false → ∀ x y z, area'.getBiomeId x y z = area.getBiomeId x y z)

theorem biomeIndex_congr {areas areas' : List BedrockBiomeSection}
    (h : List.Forall₂ SameArea areas areas') (i : ℕ) :
    biomeIndex areas' i = biomeIndex areas i := by
  induction i with
  | zero => rfl
  | succ i ih =>
      have hproxy : (areas'[i + 1]?).any BedrockBiomeSection.proxy =
          (areas[i + 1]?).any BedrockBiomeSection.proxy := by
        by_cases hlt : i + 1 < areas.length
        · have hlt' : i + 1 < areas'.length := h.length_eq ▸ hlt
          rw [List.getElem?_eq_getElem hlt, List.getElem?_eq_getElem hlt', Option.any_some,
            Option.any_some]
          exact (h.get hlt hlt').1
        · have hge' : areas'.length ≤ i + 1 := by rw [← h.length_eq]; omega
          rw [List.getElem?_eq_none hge', List.getElem?_eq_none (not_lt.mp hlt)]
      rw [biomeIndex, biomeIndex, hproxy, ih]

/-- Above a lowest section that is no proxy, a biome is never looked up in one. -/
theorem not_proxy_biomeIndex {area : BedrockBiomeSection} {areas : List BedrockBiomeSection}
    (h : area.proxy = false) {i : ℕ} (hi : i < (area :: areas).length) :
    ∃ found, (area :: areas)[biomeIndex (area :: areas) i]? = some found ∧ found.proxy = false := by
  induction i with
  | zero => exact ⟨area, rfl, h⟩
  | succ i ih =>
      rw [biomeIndex, List.getElem?_eq_getElem hi, Option.any_some]
      by_cases hproxy : ((area :: areas)[i + 1]).proxy = true
      · rw [if_pos hproxy]
        exact ih (by omega)
      · rw [if_neg hproxy]
        exact ⟨_, List.getElem?_eq_getElem hi, by simpa using hproxy⟩

theorem getBiomeId_eq_of_sameArea (hmin : column'.minCY = column.minCY)
    (hlowest : ∃ area areas, column.biomes = area :: areas ∧ area.proxy = false)
    (h : List.Forall₂ SameArea column.biomes column'.biomes) (pos : BlockPosition) :
    column'.getBiomeId pos = column.getBiomeId pos := by
  obtain ⟨area, areas, hbiomes, hproxy⟩ := hlowest
  have hco : column'.co = column.co := by rw [co, co, hmin]
  have hrel := slot_rel h (column.co + pos.y >>> (4 : ℕ))
  unfold getBiomeId
  dsimp only
  rw [hco, biomeIndex_congr h]
  cases hslot : slot column.biomes (column.co + pos.y >>> (4 : ℕ)) with
  | none =>
      have hslot' : slot column'.biomes (column.co + pos.y >>> (4 : ℕ)) = none := by
        rw [hslot] at hrel
        generalize slot column'.biomes (column.co + pos.y >>> (4 : ℕ)) = found' at hrel
        cases hrel
        rfl
      rw [hslot']
  | some found =>
      obtain ⟨found', hslot'⟩ : ∃ found', slot column'.biomes (column.co + pos.y >>> (4 : ℕ)) =
          some found' := by
        rw [hslot] at hrel
        generalize slot column'.biomes (column.co + pos.y >>> (4 : ℕ)) = found' at hrel
        cases hrel
        exact ⟨_, rfl⟩
      have hlt := (List.getElem?_eq_some_iff.mp (slot_eq_some hslot).2).1
      rw [hbiomes] at hlt
      obtain ⟨used, hused, hnot⟩ := not_proxy_biomeIndex hproxy hlt
      rw [← hbiomes] at hused
      obtain ⟨hin, hget⟩ := List.getElem?_eq_some_iff.mp hused
      have hin' : biomeIndex column.biomes (column.co + pos.y >>> (4 : ℕ)).toNat < column'.biomes.length :=
        h.length_eq ▸ hin
      have hsame := (h.get hin hin').2
      rw [List.get_eq_getElem, hget] at hsame
      rw [hslot', hused, List.getElem?_eq_getElem hin']
      exact hsame hnot _ _ _

/-- A section of one biome in the runtime format, which the persistent reader
takes as well. -/
theorem reads_single {area into : BedrockBiomeSection} (hproxy : area.proxy = false)
    (hindex : ∀ x y z, area.biomes.get x y z < area.palette.length)
    (hids : ∀ biomeId ∈ area.palette, biomeId.toNat < 2 ^ 31) (hone : area.palette.length = 1) :
    ∃ rest area', area.exportTo .runtime = 1 :: rest ∧
      Reads (into.read .networkPersistence) (1 :: rest) area' ∧ SameArea area area' := by
  obtain ⟨biomeId, hpalette⟩ := List.length_eq_one_iff.mp hone
  have hid := hids biomeId (by simp [hpalette])
  refine ⟨BedrockBiomeSection.writeRuntimeBiomeId biomeId,
    { into with proxy := false, palette := [biomeId], biomes := .ofBits 1 (by decide) (by decide) },
    ?_, ?_, hproxy.symm, fun _ x y z ↦ ?_⟩
  · have hbits : neededBits (lastIndex 1) = 0 := by decide
    simp [BedrockBiomeSection.exportTo, hproxy, hpalette, hbits]
  · refine (BinaryStream.reads_readU8 1).bind_cons ?_
    exact (BedrockBiomeSection.reads_readRuntimeBiomeId hid).bind_last (Reads.pure _)
  · have hzero : area.biomes.get x y z = 0 := by
      have := hindex x y z
      omega
    have hget : (PalettedStorage.ofBits 1 (by decide) (by decide)).get x y z = 0 :=
      packedGet_replicate_zero 1 _ _
    simp [BedrockBiomeSection.getBiomeId, hget, hzero, hpalette]

/-- The byte that starts a biome section is never 0. -/
theorem exportTo_ne_zero (area : BedrockBiomeSection) :
    ∃ type rest, area.exportTo .runtime = type :: rest ∧ type ≠ 0 := by
  by_cases hproxy : area.proxy = true
  · exact ⟨0xff, [], by rw [BedrockBiomeSection.exportTo, if_pos hproxy], by decide⟩
  · refine ⟨_, _, by rw [BedrockBiomeSection.exportTo, if_neg hproxy], fun hzero ↦ ?_⟩
    have hbyte : UInt8.ofNat ((neededBits (lastIndex area.palette.length) <<< 1) ||| 1) = 0 := hzero
    have htype := @Layer.paletteType_eq (neededBits (lastIndex area.palette.length))
      (neededBits_le _) 1 (by omega)
    rw [hbyte, UInt8.toNat_zero] at htype
    omega

/-- The loop reads proxies, when there is a section below, and sections of one
biome. -/
theorem reads_loadBiomeSections_single {areas : List BedrockBiomeSection}
    (hindex : ∀ area ∈ areas, area.proxy = false →
      ∀ x y z, area.biomes.get x y z < area.palette.length)
    (hids : ∀ area ∈ areas, ∀ biomeId ∈ area.palette, biomeId.toNat < 2 ^ 31)
    (hone : ∀ area ∈ areas, area.proxy = true ∨ area.palette.length = 1)
    (y : ℤ) (hasLast : Bool) (hlast : hasLast = true ∨ areas.head?.any (·.proxy) = false) :
    ∃ areas' hasLast', Reads (loadBiomeSections .networkPersistence areas.length y hasLast)
        (areas.flatMap (·.exportTo .runtime)) (areas', hasLast') ∧
      List.Forall₂ SameArea areas areas' := by
  induction areas generalizing y hasLast with
  | nil => exact ⟨[], hasLast, Reads.pure _, .nil⟩
  | cons area areas ih =>
      have hrest (y : ℤ) := ih (fun a ha ↦ hindex a (by simp [ha])) (fun a ha ↦ hids a (by simp [ha]))
        (fun a ha ↦ hone a (by simp [ha])) y true (.inl rfl)
      obtain ⟨areas', hasLast', hreads, hall⟩ := hrest (y + 1)
      by_cases hproxy : area.proxy = true
      · obtain rfl : hasLast = true := hlast.resolve_right (by simp [hproxy])
        refine ⟨BedrockBiomeSection.proxyToPrevious y :: areas', hasLast', ?_, .cons ⟨?_, ?_⟩ hall⟩
        · rw [List.flatMap_cons, BedrockBiomeSection.exportTo, if_pos hproxy]
          exact reads_loadBiomeSections_proxy hreads
        · exact hproxy.symm
        · intro hnot
          rw [hnot] at hproxy
          cases hproxy
      · have hnot : area.proxy = false := by simpa using hproxy
        obtain ⟨rest, area', hexport, hread, hsame⟩ := @reads_single area { y } hnot
          (hindex area (by simp) hnot) (hids area (by simp))
          ((hone area (by simp)).resolve_left hproxy)
        refine ⟨area' :: areas', hasLast', ?_, .cons hsame hall⟩
        rw [List.flatMap_cons, hexport]
        exact reads_loadBiomeSections_cons (by decide) hread hreads

/-- What the loop takes has one biome in every section. -/
theorem single_of_loadBiomeSections {areas : List BedrockBiomeSection}
    (hwritable : ∀ area ∈ areas, area.proxy = true ∨ area.Writable)
    (hshort : (areas.flatMap (·.exportTo .runtime)).length < 2 ^ 18) {y : ℤ} {hasLast : Bool}
    {offset : ℕ} {found : List BedrockBiomeSection × Bool} {c : Cursor}
    (hload : loadBiomeSections .networkPersistence areas.length y hasLast
      ⟨offset, areas.flatMap (·.exportTo .runtime)⟩ = .ok (found, c)) :
    ∀ area ∈ areas, area.proxy = true ∨ area.palette.length = 1 := by
  induction areas generalizing y hasLast offset found c with
  | nil => simp
  | cons area areas ih =>
      have hrest {y hasLast offset found c} := @ih (fun a ha ↦ hwritable a (by simp [ha])) (by
        rw [List.flatMap_cons, List.length_append] at hshort
        omega) y hasLast offset found c
      suffices h : (area.proxy = true ∨ area.palette.length = 1) ∧
          ∃ y hasLast offset found c, loadBiomeSections .networkPersistence areas.length y hasLast
            ⟨offset, areas.flatMap (·.exportTo .runtime)⟩ = .ok (found, c) by
        obtain ⟨hone, y, hasLast, offset, found, c, hload⟩ := h
        intro a ha
        rcases List.mem_cons.mp ha with rfl | ha
        · exact hone
        · exact hrest hload a ha
      rw [List.flatMap_cons] at hload hshort
      rcases hwritable area (by simp) with hproxy | harea
      · rw [BedrockBiomeSection.exportTo, if_pos hproxy, List.length_cons, List.singleton_append,
          loadBiomeSections] at hload
        have hpeek : Reader.peek ⟨offset, 0xff :: areas.flatMap (·.exportTo .runtime)⟩ =
            .ok (some 0xff, ⟨offset, 0xff :: areas.flatMap (·.exportTo .runtime)⟩) := rfl
        have hbyte : BinaryStream.readU8 ⟨offset, 0xff :: areas.flatMap (·.exportTo .runtime)⟩ =
            .ok (0xff, ⟨offset + 1, areas.flatMap (·.exportTo .runtime)⟩) := rfl
        rw [Reader.bind_run hpeek] at hload
        dsimp only at hload
        rw [if_pos rfl, Reader.bind_run hbyte] at hload
        split at hload
        · cases hload
        · change (loadBiomeSections .networkPersistence areas.length (y + 1) hasLast
            ⟨offset + 1, _⟩ >>= fun p ↦ _) = _ at hload
          obtain ⟨⟨above, c'⟩, habove, -⟩ := bind_eq_ok.mp hload
          exact ⟨.inl hproxy, _, _, _, _, _, habove⟩
      · obtain ⟨rest, hexport, hne⟩ := harea.exportTo_eq
        have hpeek : Reader.peek ⟨offset, area.exportTo .runtime ++
            areas.flatMap (·.exportTo .runtime)⟩ = .ok (some (UInt8.ofNat
              ((neededBits (area.palette.length - 1) <<< 1) ||| 1)),
              ⟨offset, area.exportTo .runtime ++ areas.flatMap (·.exportTo .runtime)⟩) := by
          rw [hexport]
          rfl
        rw [List.length_cons, loadBiomeSections, Reader.bind_run hpeek] at hload
        dsimp only at hload
        rw [if_neg hne] at hload
        change (BedrockBiomeSection.read { y } .networkPersistence
          ⟨offset, _⟩ >>= fun p ↦ _) = _ at hload
        obtain ⟨⟨area', c₁⟩, hread, hload⟩ := bind_eq_ok.mp hload
        change (loadBiomeSections .networkPersistence areas.length (y + 1) true c₁ >>= fun p ↦ _) = _
          at hload
        obtain ⟨⟨above, c₂⟩, habove, -⟩ := bind_eq_ok.mp hload
        have hone : area.palette.length = 1 := by
          by_contra hmany
          have hpos := harea.tight.length_pos
          refine harea.not_read (by omega) ?_ hshort hread
          intro first hfirst
          cases areas with
          | nil => simp at hfirst
          | cons next areas =>
              obtain ⟨type, bytes, hnext, hnezero⟩ := exportTo_ne_zero next
              rw [List.flatMap_cons, hnext] at hfirst
              obtain rfl : type = first := by simpa using hfirst
              exact hnezero
        obtain ⟨rest', single, hsingle, hreads, -⟩ := @reads_single area { y } harea.not_proxy
          harea.tight.get_lt harea.id_lt hone
        have hrun := hreads offset (areas.flatMap (·.exportTo .runtime))
        rw [← hsingle, hread] at hrun
        cases hrun
        exact ⟨.inr hone, _, _, _, _, _, habove⟩

/-- Fewer than 512 bytes hold no section of several biomes. -/
theorem read_short {into area : BedrockBiomeSection} {first : UInt8} {rest : List UInt8}
    {offset : ℕ} {c : Cursor} (hne : first ≠ 0xff) (hshort : rest.length < 512)
    (hrun : into.read .networkPersistence ⟨offset, first :: rest⟩ = .ok (area, c)) :
    first = 1 ∧ ∃ value c', BinaryStream.readVarUInt ⟨offset + 1, rest⟩ = .ok (value, c') ∧
      ∀ x y z, area.getBiomeId x y z = .ok (UInt32.ofNat (value >>> 1)) := by
  have hfirst : BinaryStream.readU8 ⟨offset, first :: rest⟩ = .ok (first, ⟨offset + 1, rest⟩) := rfl
  rw [BedrockBiomeSection.read, Reader.bind_run hfirst, if_neg hne] at hrun
  split at hrun
  · cases hrun
  rename_i hodd
  rw [Nat.and_one_is_mod] at hodd
  unfold BedrockBiomeSection.readPalette at hrun
  split at hrun
  · rename_i hzero
    rw [Nat.shiftRight_eq_div_pow, pow_one] at hzero
    have hone : first.toNat = 1 := by omega
    refine ⟨UInt8.toNat_inj.mp hone, ?_⟩
    change (BedrockBiomeSection.readRuntimeBiomeId ⟨offset + 1, rest⟩ >>= fun p ↦ _) = _ at hrun
    obtain ⟨⟨biomeId, c₁⟩, hid, harea⟩ := bind_eq_ok.mp hrun
    change Except.map (fun p : ℕ × Cursor ↦ (UInt32.ofNat (p.1 >>> 1), p.2))
      (BinaryStream.readVarUInt ⟨offset + 1, rest⟩) = _ at hid
    obtain ⟨⟨value, c₂⟩, hvalue, hpair⟩ := map_eq_ok.mp hid
    cases hpair
    refine ⟨value, _, hvalue, fun x y z ↦ ?_⟩
    cases harea
    have hget : (PalettedStorage.ofBits 1 (by decide) (by decide)).get x y z = 0 :=
      packedGet_replicate_zero 1 _ _
    simp [BedrockBiomeSection.getBiomeId, hget]
  · exfalso
    change (liftM (PalettedStorage.new (first.toNat >>> 1)) >>= _ : Reader BedrockBiomeSection)
      ⟨offset + 1, rest⟩ = _ at hrun
    obtain ⟨storage, hnew⟩ : ∃ storage, PalettedStorage.new (first.toNat >>> 1) = .ok storage := by
      cases hnew : PalettedStorage.new (first.toNat >>> 1) with
      | error e =>
          rw [hnew] at hrun
          cases hrun
      | ok storage => exact ⟨storage, rfl⟩
    rw [hnew] at hrun
    change (storage.read ⟨offset + 1, rest⟩ >>= fun p ↦ _) = _ at hrun
    obtain ⟨⟨biomes, c₁⟩, hread, -⟩ := bind_eq_ok.mp hrun
    have hlong : c₁.rest.length + 512 ≤ rest.length := storage.consumes_read _ _ _ hread
    omega

end BedrockChunkColumn

end BedrockProtocol
