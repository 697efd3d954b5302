import BedrockProtocol.World.BedrockWorld
import BedrockProtocol.Lib.Answered

/-!
# Saving before unloading

Runs of a world whose columns are saved.  A column that differs from what was saved
is in the saving queue, and one that is asked to go while it is there waits until
the queue is saved.
-/

namespace BedrockProtocol

/-- What is noted of a run: the chunks whose column an operation changed or generated, and
the calls of the callbacks. -/
inductive BedrockWorldEntry where
  | changed (chunkX chunkZ : ℤ)
  | called (event : BedrockWorldEvent)

namespace BedrockWorld

variable {world world' : BedrockWorld} {log : List BedrockWorldEntry}

/-- The note of a setter, which does nothing where no column is loaded. -/
def changedAt (world : BedrockWorld) (pos : BlockPosition) : List BedrockWorldEntry :=
  if (world.getLoadedColumnAt pos).isSome then [.changed (chunkCoord pos.x) (chunkCoord pos.z)]
  else []

/-- The note of `getColumn`, which generates a column that is neither loaded nor stored. -/
def generatedAt (world : BedrockWorld) (chunkX chunkZ : ℤ)
    (loaded generated : Option BedrockChunkColumn) : List BedrockWorldEntry :=
  if world.hasColumn chunkX chunkZ = false ∧ loaded = none ∧ generated.isSome then
    [.changed chunkX chunkZ]
  else []

/-- The operations, as long as they return. -/
inductive Step : BedrockWorld → List BedrockWorldEntry → BedrockWorld → Prop
  | setBlock {world world' : BedrockWorld} {pos : BlockPosition} {block : BedrockBlock}
      {events : List BedrockWorldEvent} (hrun : world.setBlock pos block = .ok (world', events)) :
      Step world (events.map .called ++ world.changedAt pos) world'
  | setBlockFrom {world world' : BedrockWorld} {pos : BlockPosition} {block : BedrockBlock}
      {air : Option Int32} {events : List BedrockWorldEvent}
      (hrun : world.setBlockFrom pos block air = .ok (world', events)) :
      Step world (events.map .called ++ world.changedAt pos) world'
  | setBlockStateId {world world' : BedrockWorld} {pos : BlockPosition} {stateId : Int32}
      {events : List BedrockWorldEvent}
      (hrun : world.setBlockStateId pos stateId = .ok (world', events)) :
      Step world (events.map .called ++ world.changedAt pos) world'
  | setBlockLight {world world' : BedrockWorld} {pos : BlockPosition} {value : UInt8}
      {events : List BedrockWorldEvent}
      (hrun : world.setBlockLight pos value = .ok (world', events)) :
      Step world (events.map .called ++ world.changedAt pos) world'
  | setSkyLight {world world' : BedrockWorld} {pos : BlockPosition} {value : UInt8}
      {events : List BedrockWorldEvent}
      (hrun : world.setSkyLight pos value = .ok (world', events)) :
      Step world (events.map .called ++ world.changedAt pos) world'
  | setBiomeId {world world' : BedrockWorld} {pos : BlockPosition} {biomeId : UInt32}
      {events : List BedrockWorldEvent}
      (hrun : world.setBiomeId pos biomeId = .ok (world', events)) :
      Step world (events.map .called ++ world.changedAt pos) world'
  | setColumn (world : BedrockWorld) (chunkX chunkZ : ℤ) (column : BedrockChunkColumn) :
      Step world ((world.setColumn chunkX chunkZ column true).2.map .called ++
          [.changed chunkX chunkZ])
        (world.setColumn chunkX chunkZ column true).1
  | getColumn (world : BedrockWorld) (chunkX chunkZ : ℤ)
      (loaded generated : Option BedrockChunkColumn) :
      Step world ((world.getColumn chunkX chunkZ loaded generated).2.map .called ++
          world.generatedAt chunkX chunkZ loaded generated)
        (world.getColumn chunkX chunkZ loaded generated).1
  | queueSaving (world : BedrockWorld) (chunkX chunkZ : ℤ) :
      Step world [] (world.queueSaving chunkX chunkZ)
  | saveNow (world : BedrockWorld) {queue unloads : List (Sigma fun _ : Text ↦ ℤ × ℤ)}
      (hqueue : queue.Perm world.savingQueue.entries)
      (hunloads : unloads.Perm world.unloadQueue.entries) :
      Step world ((world.saveNow queue unloads).2.map .called) (world.saveNow queue unloads).1
  | unloadColumn (world : BedrockWorld) (chunkX chunkZ : ℤ) :
      Step world ((world.unloadColumn chunkX chunkZ).2.map .called)
        (world.unloadColumn chunkX chunkZ).1

/-- The runs of a new world with the option `saveColumn`. -/
inductive Run : BedrockWorld → List BedrockWorldEntry → Prop
  | start : Run { savesColumns := true } []
  | step {world world' : BedrockWorld} {log entries : List BedrockWorldEntry}
      (h : Run world log) (hstep : Step world entries world') : Run world' (log ++ entries)

/-! ## What the log says of a column -/

def Arrives (chunkX chunkZ : ℤ) (entry : BedrockWorldEntry) : Prop :=
  entry = .changed chunkX chunkZ ∨ ∃ column, entry = .called (.columnLoad chunkX chunkZ column)

def Leaves (chunkX chunkZ : ℤ) (entry : BedrockWorldEntry) : Prop :=
  ∃ column, entry = .called (.columnUnload chunkX chunkZ column)

/-- Every change of the column was followed by a call of `saveColumn` with these contents,
unless it left the memory in between. -/
def SavedAs (chunkX chunkZ : ℤ) (column : BedrockChunkColumn) : List BedrockWorldEntry → Prop :=
  Answered (· = .changed chunkX chunkZ) fun entry ↦
    entry = .called (.saveColumn chunkX chunkZ column) ∨ Leaves chunkX chunkZ entry

/-- Whatever arrived or was changed has left the memory. -/
def Gone (chunkX chunkZ : ℤ) : List BedrockWorldEntry → Prop :=
  Answered (Arrives chunkX chunkZ) (Leaves chunkX chunkZ)

/-- Every column that left the memory had been saved as it was then. -/
def UnloadsSaved (log : List BedrockWorldEntry) : Prop :=
  ∀ before chunkX chunkZ column after,
    log = before ++ .called (.columnUnload chunkX chunkZ column) :: after →
    SavedAs chunkX chunkZ column before

/-- What the log has to say of the columns; those under a key in `dirty` may have to be
saved. -/
structure Recorded (world : BedrockWorld) (dirty : Text → Prop) (log : List BedrockWorldEntry) :
    Prop where
  unloads : UnloadsSaved log
  clean : ∀ chunkX chunkZ column, world.getLoadedColumn chunkX chunkZ = some column →
    ¬ dirty (key chunkX chunkZ) → SavedAs chunkX chunkZ column log
  gone : ∀ chunkX chunkZ, world.getLoadedColumn chunkX chunkZ = none → Gone chunkX chunkZ log

theorem Gone.savedAs {chunkX chunkZ : ℤ} (h : Gone chunkX chunkZ log)
    (column : BedrockChunkColumn) : SavedAs chunkX chunkZ column log :=
  h.mono (fun _ hentry ↦ .inl hentry) fun _ hentry ↦ .inr hentry

theorem UnloadsSaved.append (h : UnloadsSaved log) {entries : List BedrockWorldEntry}
    (hquiet : ∀ chunkX chunkZ, ∀ entry ∈ entries, ¬ Leaves chunkX chunkZ entry) :
    UnloadsSaved (log ++ entries) := by
  induction entries using List.reverseRecOn with
  | nil => rwa [List.append_nil]
  | append_singleton entries last ih =>
      have hrest := ih fun chunkX chunkZ entry hentry ↦
        hquiet chunkX chunkZ entry (by simp [hentry])
      intro before chunkX chunkZ column after hlog
      rw [← List.append_assoc] at hlog
      rcases List.eq_nil_or_concat after with rfl | ⟨after, last', rfl⟩
      · obtain ⟨-, hsame⟩ := List.append_inj' hlog rfl
        exact (hquiet chunkX chunkZ last (by simp) ⟨column, List.singleton_inj.mp hsame⟩).elim
      · rw [List.concat_eq_append, ← List.cons_append, ← List.append_assoc] at hlog
        exact hrest before chunkX chunkZ column after (List.append_inj' hlog rfl).1

theorem UnloadsSaved.unload (h : UnloadsSaved log) {chunkX chunkZ : ℤ}
    {column : BedrockChunkColumn} (hsaved : SavedAs chunkX chunkZ column log) :
    UnloadsSaved (log ++ [.called (.columnUnload chunkX chunkZ column)]) := by
  intro before chunkX' chunkZ' column' after hlog
  rcases List.eq_nil_or_concat after with rfl | ⟨after, last', rfl⟩
  · obtain ⟨rfl, hsame⟩ := List.append_inj' hlog rfl
    cases List.singleton_inj.mp hsame
    exact hsaved
  · rw [List.concat_eq_append, ← List.cons_append, ← List.append_assoc] at hlog
    exact h before chunkX' chunkZ' column' after (List.append_inj' hlog rfl).1

/-! ## Steps of the log -/

section Steps

variable {dirty dirty' : Text → Prop} {chunkX chunkZ : ℤ} {column : BedrockChunkColumn}
  {entries : List BedrockWorldEntry}

theorem getLoadedColumn_insert (hcolumns : world'.columns =
      world.columns.insert (key chunkX chunkZ) column) (chunkX' chunkZ' : ℤ) :
    world'.getLoadedColumn chunkX' chunkZ' =
      if chunkX' = chunkX ∧ chunkZ' = chunkZ then some column
      else world.getLoadedColumn chunkX' chunkZ' := by
  rw [getLoadedColumn, getLoadedColumn, hcolumns]
  split
  · rename_i hsame
    rw [hsame.1, hsame.2, AList.lookup_insert]
  · rename_i hother
    rw [AList.lookup_insert_ne fun hkey ↦ hother (key_inj.mp hkey)]

/-- Calls that neither load nor unload a column. -/
theorem Recorded.calls (h : Recorded world dirty log) {events : List BedrockWorldEvent}
    (hload : ∀ x z column, .columnLoad x z column ∉ events)
    (hunload : ∀ x z column, .columnUnload x z column ∉ events) :
    Recorded world dirty (log ++ events.map .called) := by
  have hleaves (x z : ℤ) : ∀ entry ∈ events.map BedrockWorldEntry.called, ¬ Leaves x z entry := by
    rintro entry hentry ⟨column, rfl⟩
    obtain ⟨event, hevent, heq⟩ := List.mem_map.mp hentry
    cases heq
    exact hunload x z column hevent
  have harrives (x z : ℤ) : ∀ entry ∈ events.map BedrockWorldEntry.called, ¬ Arrives x z entry := by
    intro entry hentry harrive
    obtain ⟨event, hevent, rfl⟩ := List.mem_map.mp hentry
    rcases harrive with hchanged | ⟨column, heq⟩
    · cases hchanged
    · cases heq
      exact hload x z column hevent
  refine ⟨h.unloads.append hleaves, fun x z column hfound hclean ↦ ?_, fun x z hnone ↦ ?_⟩
  · exact (h.clean x z column hfound hclean).append fun entry hentry hchanged ↦
      harrives x z entry hentry (.inl hchanged)
  · exact (h.gone x z hnone).append (harrives x z)

/-- A column was stored under a key that has to be saved now. -/
theorem Recorded.insert (h : Recorded world dirty log)
    (hcolumns : world'.columns = world.columns.insert (key chunkX chunkZ) column)
    (hdirty : ∀ k, dirty k → dirty' k) (hnow : dirty' (key chunkX chunkZ))
    (hleaves : ∀ x z, ∀ entry ∈ entries, ¬ Leaves x z entry)
    (harrives : ∀ x z, ∀ entry ∈ entries, Arrives x z entry → x = chunkX ∧ z = chunkZ) :
    Recorded world' dirty' (log ++ entries) := by
  refine ⟨h.unloads.append hleaves, fun x z column' hfound hclean ↦ ?_, fun x z hnone ↦ ?_⟩
  · rw [getLoadedColumn_insert hcolumns] at hfound
    by_cases hsame : x = chunkX ∧ z = chunkZ
    · rw [hsame.1, hsame.2] at hclean
      exact (hclean hnow).elim
    · rw [if_neg hsame] at hfound
      refine (h.clean x z column' hfound fun hold ↦ hclean (hdirty _ hold)).append ?_
      exact fun entry hentry hchanged ↦ hsame (harrives x z entry hentry (.inl hchanged))
  · rw [getLoadedColumn_insert hcolumns] at hnone
    by_cases hsame : x = chunkX ∧ z = chunkZ
    · rw [if_pos hsame] at hnone
      cases hnone
    · rw [if_neg hsame] at hnone
      exact (h.gone x z hnone).append fun entry hentry harrive ↦
        hsame (harrives x z entry hentry harrive)

/-- A column that was not in memory came from the storage. -/
theorem Recorded.load (h : Recorded world dirty log)
    (hcolumns : world'.columns = world.columns.insert (key chunkX chunkZ) column)
    (hnone : world.getLoadedColumn chunkX chunkZ = none) :
    Recorded world' dirty (log ++ [.called (.columnLoad chunkX chunkZ column)]) := by
  have hchanged (x z : ℤ) : ∀ entry ∈ [BedrockWorldEntry.called (.columnLoad chunkX chunkZ column)],
      ¬ entry = .changed x z := by
    intro entry hentry heq
    rw [List.mem_singleton.mp hentry] at heq
    cases heq
  refine ⟨h.unloads.append ?_, fun x z column' hfound hclean ↦ ?_, fun x z hgone ↦ ?_⟩
  · rintro x z entry hentry ⟨column', heq⟩
    rw [List.mem_singleton.mp hentry] at heq
    cases heq
  · rw [getLoadedColumn_insert hcolumns] at hfound
    by_cases hsame : x = chunkX ∧ z = chunkZ
    · rw [hsame.1, hsame.2]
      exact ((h.gone chunkX chunkZ hnone).savedAs column').append (hchanged chunkX chunkZ)
    · rw [if_neg hsame] at hfound
      exact (h.clean x z column' hfound hclean).append (hchanged x z)
  · rw [getLoadedColumn_insert hcolumns] at hgone
    by_cases hsame : x = chunkX ∧ z = chunkZ
    · rw [if_pos hsame] at hgone
      cases hgone
    · rw [if_neg hsame] at hgone
      refine (h.gone x z hgone).append fun entry hentry harrive ↦ ?_
      rw [List.mem_singleton.mp hentry] at harrive
      rcases harrive with heq | ⟨column', heq⟩
      · cases heq
      · cases heq
        exact hsame ⟨rfl, rfl⟩

theorem getLoadedColumn_forceUnloadColumn (world : BedrockWorld) (chunkX chunkZ x z : ℤ) :
    (world.forceUnloadColumn chunkX chunkZ).1.getLoadedColumn x z =
      if x = chunkX ∧ z = chunkZ then none else world.getLoadedColumn x z := by
  have hcolumns : (world.forceUnloadColumn chunkX chunkZ).1.columns =
      world.columns.erase (key chunkX chunkZ) := rfl
  rw [getLoadedColumn, getLoadedColumn, hcolumns]
  split
  · rename_i hsame
    rw [hsame.1, hsame.2, AList.lookup_erase]
  · rename_i hother
    rw [AList.lookup_erase_ne fun hkey ↦ hother (key_inj.mp hkey)]

/-- A column without unsaved changes leaves the memory. -/
theorem Recorded.forceUnloadColumn (h : Recorded world dirty log)
    (hclean : ¬ dirty (key chunkX chunkZ)) :
    Recorded (world.forceUnloadColumn chunkX chunkZ).1 dirty
      (log ++ (world.forceUnloadColumn chunkX chunkZ).2.map .called) := by
  have hlookup := world.getLoadedColumn_forceUnloadColumn chunkX chunkZ
  cases hfound : world.getLoadedColumn chunkX chunkZ with
  | none =>
      have hevents : (world.forceUnloadColumn chunkX chunkZ).2 = [] := by
        rw [BedrockWorld.forceUnloadColumn, hfound]
      rw [hevents, List.map_nil, List.append_nil]
      refine ⟨h.unloads, fun x z column hcolumn hnot ↦ ?_, fun x z hnone ↦ ?_⟩
      · rw [hlookup] at hcolumn
        split at hcolumn
        · cases hcolumn
        · exact h.clean x z column hcolumn hnot
      · rw [hlookup] at hnone
        split at hnone
        · rename_i hsame
          rw [hsame.1, hsame.2]
          exact h.gone chunkX chunkZ hfound
        · exact h.gone x z hnone
  | some column =>
      have hevents : (world.forceUnloadColumn chunkX chunkZ).2 =
          [.columnUnload chunkX chunkZ column] := by
        rw [BedrockWorld.forceUnloadColumn, hfound]
      have hquiet (x z : ℤ) : ∀ entry ∈
          [BedrockWorldEntry.called (.columnUnload chunkX chunkZ column)], ¬ Arrives x z entry := by
        intro entry hentry harrive
        rw [List.mem_singleton.mp hentry] at harrive
        rcases harrive with heq | ⟨column', heq⟩
        · cases heq
        · cases heq
      rw [hevents]
      refine ⟨h.unloads.unload (h.clean chunkX chunkZ column hfound hclean),
        fun x z column' hcolumn hnot ↦ ?_, fun x z hnone ↦ ?_⟩
      · rw [hlookup] at hcolumn
        split at hcolumn
        · cases hcolumn
        · exact (h.clean x z column' hcolumn hnot).append fun entry hentry hchanged ↦
            hquiet x z entry hentry (.inl hchanged)
      · rw [hlookup] at hnone
        split at hnone
        · rename_i hsame
          rw [hsame.1, hsame.2]
          exact Answered.of_mem log (List.mem_singleton_self _) ⟨column, rfl⟩ (hquiet chunkX chunkZ)
        · exact (h.gone x z hnone).append (hquiet x z)

end Steps

/-! ## The queues -/

/-- Keys that wait for being unloaded wait for being saved, and those are loaded. -/
structure Queued (world : BedrockWorld) : Prop where
  saves : world.savesColumns = true
  saving_loaded : ∀ k ∈ world.savingQueue, k ∈ world.columns
  unload_saving : ∀ k ∈ world.unloadQueue, k ∈ world.savingQueue
  saving_key : ∀ k v, world.savingQueue.lookup k = some v → k = key v.1 v.2
  unload_key : ∀ k v, world.unloadQueue.lookup k = some v → k = key v.1 v.2

def Inv (world : BedrockWorld) (log : List BedrockWorldEntry) : Prop :=
  world.Queued ∧ world.Recorded (· ∈ world.savingQueue) log

theorem lookup_insert_key {queue : AList fun _ : Text ↦ ℤ × ℤ} {chunkX chunkZ : ℤ}
    (h : ∀ k v, queue.lookup k = some v → k = key v.1 v.2) :
    ∀ k v, (queue.insert (key chunkX chunkZ) (chunkX, chunkZ)).lookup k = some v →
      k = key v.1 v.2 := by
  intro k v hlookup
  by_cases hk : k = key chunkX chunkZ
  · rw [hk, AList.lookup_insert] at hlookup
    rw [hk, ← Option.some.inj hlookup]
  · rw [AList.lookup_insert_ne hk] at hlookup
    exact h k v hlookup

theorem lookup_erase_key {queue : AList fun _ : Text ↦ ℤ × ℤ} {k' : Text}
    (h : ∀ k v, queue.lookup k = some v → k = key v.1 v.2) :
    ∀ k v, (queue.erase k').lookup k = some v → k = key v.1 v.2 := by
  intro k v hlookup
  by_cases hk : k = k'
  · rw [hk, AList.lookup_erase] at hlookup
    cases hlookup
  · rw [AList.lookup_erase_ne hk] at hlookup
    exact h k v hlookup

theorem hasColumn_iff (world : BedrockWorld) (chunkX chunkZ : ℤ) :
    world.hasColumn chunkX chunkZ ↔ key chunkX chunkZ ∈ world.columns :=
  AList.lookup_isSome

/-- A column was stored and queued for being saved. -/
theorem Inv.insert (h : Inv world log) {chunkX chunkZ : ℤ} {column : BedrockChunkColumn}
    {entries : List BedrockWorldEntry}
    (hworld : world' = { world with
      columns := world.columns.insert (key chunkX chunkZ) column
      savingQueue := world.savingQueue.insert (key chunkX chunkZ) (chunkX, chunkZ) })
    (hleaves : ∀ x z, ∀ entry ∈ entries, ¬ Leaves x z entry)
    (harrives : ∀ x z, ∀ entry ∈ entries, Arrives x z entry → x = chunkX ∧ z = chunkZ) :
    Inv world' (log ++ entries) := by
  obtain ⟨hqueued, hrecorded⟩ := h
  subst hworld
  refine ⟨⟨hqueued.saves, fun k hk ↦ ?_, fun k hk ↦ ?_, lookup_insert_key hqueued.saving_key,
    hqueued.unload_key⟩, ?_⟩
  · rcases (AList.mem_insert _).mp hk with rfl | hold
    · exact (AList.mem_insert _).mpr (.inl rfl)
    · exact (AList.mem_insert _).mpr (.inr (hqueued.saving_loaded k hold))
  · exact (AList.mem_insert _).mpr (.inr (hqueued.unload_saving k hk))
  · exact hrecorded.insert rfl (fun k hk ↦ (AList.mem_insert _).mpr (.inr hk))
      ((AList.mem_insert _).mpr (.inl rfl)) hleaves harrives

theorem queueSaving_insert (hsaves : world.savesColumns = true) (chunkX chunkZ : ℤ)
    (column : BedrockChunkColumn) :
    queueSaving { world with columns := world.columns.insert (key chunkX chunkZ) column }
        chunkX chunkZ =
      { world with
        columns := world.columns.insert (key chunkX chunkZ) column
        savingQueue := world.savingQueue.insert (key chunkX chunkZ) (chunkX, chunkZ) } := by
  rw [BedrockWorld.queueSaving, if_neg]
  rintro (hoff | hmissing)
  · rw [hsaves] at hoff
    cases hoff
  · rw [← Bool.not_eq_true, hasColumn_iff] at hmissing
    exact hmissing ((AList.mem_insert _).mpr (.inl rfl))

/-- The setters of a block. -/
theorem Inv.change (h : Inv world log) {pos : BlockPosition}
    {set : BedrockChunkColumn → Except String BedrockChunkColumn}
    {events : List BedrockWorldEvent} (hrun : world.change pos set = .ok (world', events)) :
    Inv world' (log ++ (events.map .called ++ world.changedAt pos)) := by
  cases hload : world.getLoadedColumnAt pos with
  | none =>
      rw [BedrockWorld.change, hload] at hrun
      obtain ⟨rfl, rfl⟩ := Prod.mk.inj (Except.ok.inj hrun)
      rw [changedAt, hload]
      simpa using h
  | some column =>
      obtain ⟨oldBlock, column', newBlock, -, -, -, rfl, rfl⟩ := (change_eq_ok hload).mp hrun
      rw [changedAt, hload, Option.isSome_some, if_pos rfl]
      refine @Inv.insert world _ log h (chunkCoord pos.x) (chunkCoord pos.z) column' _
        (queueSaving_insert h.1.saves _ _ _) ?_ ?_
      · rintro x z entry hentry ⟨column, rfl⟩
        simp at hentry
      · intro x z entry hentry harrive
        rcases harrive with rfl | ⟨column, rfl⟩
        · simpa using hentry
        · simp at hentry

theorem Inv.queueSaving (h : Inv world log) (chunkX chunkZ : ℤ) :
    Inv (world.queueSaving chunkX chunkZ) log := by
  rw [BedrockWorld.queueSaving]
  by_cases hskip : world.savesColumns = false ∨ world.hasColumn chunkX chunkZ = false
  · rwa [if_pos hskip]
  · rw [if_neg hskip]
    obtain ⟨hqueued, hrecorded⟩ := h
    have hloaded : key chunkX chunkZ ∈ world.columns := by
      rw [← hasColumn_iff]
      simpa using fun hnone ↦ hskip (.inr hnone)
    refine ⟨⟨hqueued.saves, fun k hk ↦ ?_, fun k hk ↦ ?_, lookup_insert_key hqueued.saving_key,
      hqueued.unload_key⟩, hrecorded.unloads, fun x z column hfound hclean ↦ ?_, hrecorded.gone⟩
    · rcases (AList.mem_insert _).mp hk with rfl | hold
      · exact hloaded
      · exact hqueued.saving_loaded k hold
    · exact (AList.mem_insert _).mpr (.inr (hqueued.unload_saving k hk))
    · exact hrecorded.clean x z column hfound fun hold ↦ hclean ((AList.mem_insert _).mpr (.inr hold))

theorem Inv.setColumn (h : Inv world log) (chunkX chunkZ : ℤ) (column : BedrockChunkColumn) :
    Inv (world.setColumn chunkX chunkZ column true).1
      (log ++ ((world.setColumn chunkX chunkZ column true).2.map .called ++
        [.changed chunkX chunkZ])) := by
  rw [BedrockWorld.setColumn, setLoadedColumn, if_pos ⟨rfl, h.1.saves⟩]
  refine @Inv.insert world _ log h chunkX chunkZ column _ (queueSaving_insert h.1.saves _ _ _) ?_ ?_
  · rintro x z entry hentry ⟨column', rfl⟩
    simp at hentry
  · intro x z entry hentry harrive
    rcases harrive with rfl | ⟨column', rfl⟩
    · simpa using hentry
    · have hsame : x = chunkX ∧ z = chunkZ ∧ column' = column := by simpa using hentry
      exact ⟨hsame.1, hsame.2.1⟩

theorem Inv.getColumn (h : Inv world log) (chunkX chunkZ : ℤ)
    (loaded generated : Option BedrockChunkColumn) :
    Inv (world.getColumn chunkX chunkZ loaded generated).1
      (log ++ ((world.getColumn chunkX chunkZ loaded generated).2.map .called ++
        world.generatedAt chunkX chunkZ loaded generated)) := by
  unfold BedrockWorld.getColumn generatedAt hasColumn
  cases hfound : world.getLoadedColumn chunkX chunkZ with
  | some column => simpa using h
  | none =>
      cases loaded with
      | some column =>
          obtain ⟨hqueued, hrecorded⟩ := h
          have hnew : key chunkX chunkZ ∉ world.savingQueue := by
            intro hmem
            have hloaded := AList.lookup_isSome.mpr (hqueued.saving_loaded _ hmem)
            rw [getLoadedColumn] at hfound
            rw [hfound] at hloaded
            cases hloaded
          refine ⟨⟨hqueued.saves, fun k hk ↦ ?_, hqueued.unload_saving, hqueued.saving_key,
            hqueued.unload_key⟩, ?_⟩
          · exact (AList.mem_insert _).mpr (.inr (hqueued.saving_loaded k hk))
          · exact hrecorded.load rfl hfound
      | none =>
          cases generated with
          | some column => simpa [BedrockWorld.setColumn] using h.setColumn chunkX chunkZ column
          | none => simpa using h

/-! ## Saving -/

theorem mem_foldl_erase {queue : List (Sigma fun _ : Text ↦ ℤ × ℤ)}
    {queued : AList fun _ : Text ↦ ℤ × ℤ} {k : Text} :
    k ∈ queue.foldl (fun queued item ↦ queued.erase item.1) queued ↔
      k ∈ queued ∧ ∀ item ∈ queue, item.1 ≠ k := by
  induction queue generalizing queued with
  | nil => simp
  | cons item queue ih =>
      rw [List.foldl_cons, ih, AList.mem_erase, List.forall_mem_cons]
      constructor
      · rintro ⟨⟨hne, hmem⟩, hrest⟩
        exact ⟨hmem, hne.symm, hrest⟩
      · rintro ⟨hmem, hne, hrest⟩
        exact ⟨⟨hne.symm, hmem⟩, hrest⟩

/-- An element for every key of a table, in whatever order. -/
theorem exists_item {queue : List (Sigma fun _ : Text ↦ ℤ × ℤ)}
    {queued : AList fun _ : Text ↦ ℤ × ℤ} (hqueue : queue.Perm queued.entries) {k : Text}
    (hk : k ∈ queued) : ∃ item ∈ queue, item.1 = k := by
  obtain ⟨v, hv⟩ := Option.isSome_iff_exists.mp (AList.lookup_isSome.mpr hk)
  exact ⟨⟨k, v⟩, hqueue.mem_iff.mpr (AList.mem_lookup_iff.mp hv), rfl⟩

theorem lookup_item {queue : List (Sigma fun _ : Text ↦ ℤ × ℤ)}
    {queued : AList fun _ : Text ↦ ℤ × ℤ} (hqueue : queue.Perm queued.entries)
    {item : Sigma fun _ : Text ↦ ℤ × ℤ} (hitem : item ∈ queue) :
    queued.lookup item.1 = some item.2 :=
  AList.mem_lookup_iff.mpr (hqueue.mem_iff.mp hitem)

/-- After the first loop of `saveNow` every loaded column is saved as it is. -/
theorem Inv.saves (h : Inv world log) {queue : List (Sigma fun _ : Text ↦ ℤ × ℤ)}
    (hqueue : queue.Perm world.savingQueue.entries) :
    world.Recorded (fun _ ↦ False) (log ++ (queue.flatMap world.saveEvents).map .called) := by
  obtain ⟨hqueued, hrecorded⟩ := h
  have hsaves (event : BedrockWorldEvent) (hevent : event ∈ queue.flatMap world.saveEvents) :
      ∃ x z column, event = .saveColumn x z column := by
    obtain ⟨item, -, hevent⟩ := List.mem_flatMap.mp hevent
    rw [saveEvents] at hevent
    split at hevent
    · cases hevent
    · exact ⟨_, _, _, List.mem_singleton.mp hevent⟩
  have hcalls : world.Recorded (· ∈ world.savingQueue)
      (log ++ (queue.flatMap world.saveEvents).map .called) := by
    refine hrecorded.calls (fun x z column hmem ↦ ?_) fun x z column hmem ↦ ?_
    · obtain ⟨_, _, _, heq⟩ := hsaves _ hmem
      cases heq
    · obtain ⟨_, _, _, heq⟩ := hsaves _ hmem
      cases heq
  refine ⟨hcalls.unloads, fun x z column hfound _ ↦ ?_, hcalls.gone⟩
  by_cases hdirty : key x z ∈ world.savingQueue
  · -- The key is in the queue, so the column was saved just now.
    obtain ⟨item, hitem, hkey⟩ := exists_item hqueue hdirty
    have hsame := key_inj.mp (hkey.symm.trans (hqueued.saving_key _ _ (lookup_item hqueue hitem)))
    have hevent : BedrockWorldEvent.saveColumn x z column ∈ queue.flatMap world.saveEvents := by
      refine List.mem_flatMap.mpr ⟨item, hitem, ?_⟩
      rw [getLoadedColumn] at hfound
      rw [saveEvents, hkey, hfound, hsame.1, hsame.2]
      exact List.mem_singleton_self _
    refine Answered.of_mem log (List.mem_map_of_mem hevent) (.inl rfl) ?_
    intro entry hentry heq
    obtain ⟨event, -, rfl⟩ := List.mem_map.mp hentry
    cases heq
  · exact hcalls.clean x z column hfound hdirty

/-- The second loop, with every column saved. -/
theorem Recorded.forceUnloadAll {unloads : List (Sigma fun _ : Text ↦ ℤ × ℤ)}
    (h : world.Recorded (fun _ ↦ False) log) :
    (forceUnloadAll unloads world).1.Recorded (fun _ ↦ False)
      (log ++ (forceUnloadAll unloads world).2.map .called) := by
  induction unloads generalizing world log with
  | nil => simpa [BedrockWorld.forceUnloadAll] using h
  | cons item unloads ih =>
      have hfirst := @Recorded.forceUnloadColumn _ _ _ item.2.1 item.2.2 h not_false
      have hrest := ih hfirst
      rw [List.append_assoc, ← List.map_append] at hrest
      exact hrest

/-- What the second loop leaves of the queues. -/
theorem forceUnloadAll_queues (unloads : List (Sigma fun _ : Text ↦ ℤ × ℤ))
    (world : BedrockWorld) :
    (forceUnloadAll unloads world).1.savesColumns = world.savesColumns ∧
      (∀ k ∈ (forceUnloadAll unloads world).1.savingQueue, k ∈ world.savingQueue) ∧
      (∀ k ∈ (forceUnloadAll unloads world).1.unloadQueue, k ∈ world.unloadQueue ∧
        ∀ item ∈ unloads, key item.2.1 item.2.2 ≠ k) := by
  induction unloads generalizing world with
  | nil => simp [forceUnloadAll]
  | cons item unloads ih =>
      obtain ⟨hsaves, hsaving, hunload⟩ := ih (world.forceUnloadColumn item.2.1 item.2.2).1
      refine ⟨hsaves, fun k hk ↦ ?_, fun k hk ↦ ?_⟩
      · exact (AList.mem_erase.mp (hsaving k hk)).2
      · obtain ⟨hmem, hothers⟩ := hunload k hk
        obtain ⟨hne, hmem⟩ := AList.mem_erase.mp hmem
        exact ⟨hmem, List.forall_mem_cons.mpr ⟨Ne.symm hne, hothers⟩⟩

theorem Inv.saveNow (h : Inv world log) {queue unloads : List (Sigma fun _ : Text ↦ ℤ × ℤ)}
    (hqueue : queue.Perm world.savingQueue.entries)
    (hunloads : unloads.Perm world.unloadQueue.entries) :
    Inv (world.saveNow queue unloads).1 (log ++ (world.saveNow queue unloads).2.map .called) := by
  rw [BedrockWorld.saveNow]
  by_cases hskip : queue = [] ∨ world.savesColumns = false
  · rw [if_pos hskip]
    simpa using h
  rw [if_neg hskip]
  dsimp only
  set savingQueue := queue.foldl (fun queued item ↦ queued.erase item.1) world.savingQueue
    with hsavingQueue
  have hsaving : ∀ k, k ∉ savingQueue := by
    intro k hk
    obtain ⟨hmem, hothers⟩ := mem_foldl_erase.mp hk
    obtain ⟨item, hitem, hkey⟩ := exists_item hqueue hmem
    exact hothers item hitem hkey
  have hsaved := h.saves hqueue
  have hcleared : ({ world with savingQueue } : BedrockWorld).Recorded (fun _ ↦ False)
      (log ++ (queue.flatMap world.saveEvents).map .called) :=
    ⟨hsaved.unloads, hsaved.clean, hsaved.gone⟩
  have hfinal := @Recorded.forceUnloadAll _ _ unloads hcleared
  obtain ⟨hsaves, hsavingSub, hunloadSub⟩ :=
    forceUnloadAll_queues unloads { world with savingQueue }
  have hunload : ∀ k, k ∉ (forceUnloadAll unloads { world with savingQueue }).1.unloadQueue := by
    intro k hk
    obtain ⟨hmem, hothers⟩ := hunloadSub k hk
    obtain ⟨item, hitem, hkey⟩ := exists_item hunloads hmem
    refine hothers item hitem ?_
    rw [← h.1.unload_key _ _ (lookup_item hunloads hitem), hkey]
  constructor
  · refine ⟨hsaves.trans h.1.saves, fun k hk ↦ (hsaving k (hsavingSub k hk)).elim,
      fun k hk ↦ (hunload k hk).elim, fun k v hv ↦ ?_, fun k v hv ↦ ?_⟩
    · exact (hsaving k (hsavingSub k (AList.lookup_isSome.mp (by rw [hv]; rfl)))).elim
    · exact (hunload k (AList.lookup_isSome.mp (by rw [hv]; rfl))).elim
  · have hdone := @Recorded.calls _ _ _ hfinal [.doneSaving] (by simp) (by simp)
    rw [List.map_append, List.map_append, ← List.append_assoc, ← List.append_assoc]
    exact ⟨hdone.unloads, fun x z column hfound _ ↦ hdone.clean x z column hfound not_false,
      hdone.gone⟩

theorem Inv.unloadColumn (h : Inv world log) (chunkX chunkZ : ℤ) :
    Inv (world.unloadColumn chunkX chunkZ).1
      (log ++ (world.unloadColumn chunkX chunkZ).2.map .called) := by
  rw [BedrockWorld.unloadColumn]
  by_cases hnone : world.hasColumn chunkX chunkZ = false
  · rw [if_pos hnone]
    simpa using h
  rw [if_neg hnone]
  obtain ⟨hqueued, hrecorded⟩ := h
  by_cases hwaits : world.savesColumns ∧ key chunkX chunkZ ∈ world.savingQueue
  · rw [if_pos hwaits, List.map_nil, List.append_nil]
    refine ⟨⟨hqueued.saves, hqueued.saving_loaded, fun k hk ↦ ?_, hqueued.saving_key,
      lookup_insert_key hqueued.unload_key⟩, hrecorded.unloads, hrecorded.clean, hrecorded.gone⟩
    rcases (AList.mem_insert _).mp hk with rfl | hold
    · exact hwaits.2
    · exact hqueued.unload_saving k hold
  · rw [if_neg hwaits]
    have hclean : key chunkX chunkZ ∉ world.savingQueue := fun hmem ↦ hwaits ⟨hqueued.saves, hmem⟩
    have hforce := hrecorded.forceUnloadColumn hclean
    refine ⟨⟨hqueued.saves, fun k hk ↦ ?_, fun k hk ↦ ?_, lookup_erase_key hqueued.saving_key,
      lookup_erase_key hqueued.unload_key⟩, hforce.unloads, fun x z column hfound hnot ↦ ?_,
      hforce.gone⟩
    · obtain ⟨hne, hmem⟩ := AList.mem_erase.mp hk
      exact AList.mem_erase.mpr ⟨hne, hqueued.saving_loaded k hmem⟩
    · obtain ⟨hne, hmem⟩ := AList.mem_erase.mp hk
      exact AList.mem_erase.mpr ⟨hne, hqueued.unload_saving k hmem⟩
    · refine hforce.clean x z column hfound fun hold ↦ hnot (AList.mem_erase.mpr ⟨?_, hold⟩)
      intro hkey
      exact hclean (hkey ▸ hold)

/-! ## Runs -/

theorem Step.inv {entries : List BedrockWorldEntry} (hstep : Step world entries world')
    (h : Inv world log) : Inv world' (log ++ entries) := by
  cases hstep with
  | setBlock hrun => exact h.change hrun
  | setBlockFrom hrun => exact h.change hrun
  | setBlockStateId hrun => exact h.change hrun
  | setBlockLight hrun => exact h.change hrun
  | setSkyLight hrun => exact h.change hrun
  | setBiomeId hrun => exact h.change hrun
  | setColumn chunkX chunkZ column => exact h.setColumn chunkX chunkZ column
  | getColumn chunkX chunkZ loaded generated => exact h.getColumn chunkX chunkZ loaded generated
  | queueSaving chunkX chunkZ =>
      rw [List.append_nil]
      exact h.queueSaving chunkX chunkZ
  | saveNow hqueue hunloads => exact h.saveNow hqueue hunloads
  | unloadColumn chunkX chunkZ => exact h.unloadColumn chunkX chunkZ

theorem Run.inv (h : Run world log) : Inv world log := by
  induction h with
  | start =>
      refine ⟨⟨rfl, fun k hk ↦ ?_, fun k hk ↦ ?_, fun k v hv ↦ ?_, fun k v hv ↦ ?_⟩, ?_, ?_, ?_⟩
      · exact (AList.notMem_empty k hk).elim
      · exact (AList.notMem_empty k hk).elim
      · cases hv
      · cases hv
      · intro before chunkX chunkZ column after hlog
        simp at hlog
      · intro chunkX chunkZ column hfound
        cases hfound
      · exact fun chunkX chunkZ _ ↦ Answered.nil
  | step _ hstep ih => exact hstep.inv ih

/-- In every run a key that waits for being unloaded waits for being saved, one that waits
for being saved is loaded, and a column that leaves the memory was saved as it is then
after its last change.  A column that is not loaded has left through `forceUnloadColumn`. -/
theorem Run.saved_before_unload (h : Run world log) :
    (∀ k ∈ world.unloadQueue, k ∈ world.savingQueue) ∧
      (∀ k ∈ world.savingQueue, k ∈ world.columns) ∧ UnloadsSaved log ∧
      ∀ chunkX chunkZ, world.hasColumn chunkX chunkZ = false → Gone chunkX chunkZ log := by
  obtain ⟨hqueued, hrecorded⟩ := h.inv
  refine ⟨hqueued.unload_saving, hqueued.saving_loaded, hrecorded.unloads, ?_⟩
  intro chunkX chunkZ hnone
  exact hrecorded.gone chunkX chunkZ (by simpa [hasColumn] using hnone)

/-- A new column that is asked to go at once is saved first. -/
theorem saved_before_unload_run :
    UnloadsSaved [.called (.columnLoad 1 2 (.new 1 2)), .changed 1 2,
      .called (.saveColumn 1 2 (.new 1 2)), .called (.columnUnload 1 2 (.new 1 2)),
      .called .doneSaving] := by
  have hset := Run.start.step (.setColumn _ 1 2 (.new 1 2))
  have hunload := hset.step (.unloadColumn _ 1 2)
  have hsave := hunload.step (.saveNow _ (.refl _) (.refl _))
  exact hsave.saved_before_unload.2.2.1

end BedrockWorld

end BedrockProtocol
