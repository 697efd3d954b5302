import Mathlib.Data.List.AList

/-!
# The last write wins

A table that is filled by a loop holds, under a key, the last item written
there.  Two tables: a finite map with an insertion for every item, and a list of
slots that are overwritten.
-/

namespace BedrockProtocol

variable {α κ : Type} {key : α → κ} {as : List α}

/-- An item of a list that no later one has the key of. -/
def IsLast (key : α → κ) (as : List α) (a : α) : Prop :=
  ∃ before after, as = before ++ a :: after ∧ ∀ b ∈ after, key b ≠ key a

theorem IsLast.mem {a : α} (h : IsLast key as a) : a ∈ as := by
  obtain ⟨before, after, rfl, -⟩ := h
  simp

theorem exists_isLast {k : κ} (h : ∃ a ∈ as, key a = k) : ∃ b, key b = k ∧ IsLast key as b := by
  induction as with
  | nil => simp at h
  | cons first as ih =>
      by_cases hlater : ∃ a ∈ as, key a = k
      · obtain ⟨b, hb, before, after, rfl, hafter⟩ := ih hlater
        exact ⟨b, hb, first :: before, after, rfl, hafter⟩
      · obtain ⟨a, ha, hk⟩ := h
        rcases List.mem_cons.mp ha with rfl | ha
        · refine ⟨a, hk, [], as, rfl, fun b hb hsame ↦ hlater ⟨b, hb, ?_⟩⟩
          rw [hsame, hk]
        · exact absurd ⟨a, ha, hk⟩ hlater

/-- The first item with a key from the back is the last one. -/
theorem isLast_of_find? [DecidableEq κ] {k : κ} {a : α}
    (h : as.reverse.find? (fun b ↦ key b = k) = some a) : key a = k ∧ IsLast key as a := by
  obtain ⟨hkey, after, before, hsplit, hafter⟩ := List.find?_eq_some_iff_append.mp h
  obtain rfl := of_decide_eq_true hkey
  refine ⟨rfl, before.reverse, after.reverse, ?_, fun b hb hsame ↦ ?_⟩
  · rw [← List.reverse_reverse as, hsplit]
    simp
  · simpa [hsame] using hafter b (List.mem_reverse.mp hb)

/-- There is one last item of a key. -/
theorem IsLast.unique {a b : α} (ha : IsLast key as a) (hb : IsLast key as b)
    (hkey : key a = key b) : a = b := by
  obtain ⟨before, after, rfl, hafter⟩ := ha
  obtain ⟨before', after', heq, hafter'⟩ := hb
  rcases List.append_eq_append_iff.mp heq with ⟨between, rfl, hrest⟩ | ⟨between, rfl, hrest⟩
  · cases between with
    | nil => exact (List.cons.inj hrest).1
    | cons first between =>
        obtain ⟨-, rfl⟩ := List.cons.inj hrest
        exact absurd hkey.symm (hafter b (by simp))
  · cases between with
    | nil => exact ((List.cons.inj hrest).1).symm
    | cons first between =>
        obtain ⟨-, rfl⟩ := List.cons.inj hrest
        exact absurd hkey (hafter' a (by simp))

theorem IsLast.exists_of_map {β : Type} {f : β → α} {bs : List β} {a : α}
    (h : IsLast key (bs.map f) a) : ∃ b, f b = a ∧ IsLast (fun b ↦ key (f b)) bs b := by
  obtain ⟨before, after, hsplit, hafter⟩ := h
  obtain ⟨before', rest, rfl, rfl, hrest⟩ := List.map_eq_append_iff.mp hsplit
  obtain ⟨b, after', rfl, rfl, rfl⟩ := List.map_eq_cons_iff.mp hrest
  exact ⟨b, rfl, before', after', rfl, fun c hc ↦ hafter (f c) (List.mem_map_of_mem hc)⟩

/-- In an ordered list the items with the key of the last one come before it. -/
theorem IsLast.eq_or_rel {r : α → α → Prop} {a b : α} (h : IsLast key as a) (hr : as.Pairwise r)
    (hb : b ∈ as) (hkey : key b = key a) : b = a ∨ r b a := by
  obtain ⟨before, after, rfl, hafter⟩ := h
  rcases List.mem_append.mp hb with hbefore | hrest
  · exact .inr ((List.pairwise_append.mp hr).2.2 b hbefore a List.mem_cons_self)
  · rcases List.mem_cons.mp hrest with heq | hlater
    · exact .inl heq
    · exact absurd hkey (hafter b hlater)

/-- Without repeated keys every item is the last one of its key. -/
theorem isLast_of_nodup {a : α} (hnodup : (as.map key).Nodup) (ha : a ∈ as) : IsLast key as a := by
  obtain ⟨before, after, rfl⟩ := List.append_of_mem ha
  refine ⟨before, after, rfl, fun b hb hsame ↦ ?_⟩
  rw [List.map_append, List.map_cons] at hnodup
  have hrest := (List.nodup_append.mp hnodup).2.1
  exact (List.nodup_cons.mp hrest).1 (hsame ▸ List.mem_map_of_mem hb)

section Map

variable [DecidableEq κ]

/-- Insert every item under its key. -/
def insertAll (key : α → κ) (m : AList fun _ : κ ↦ α) (as : List α) : AList fun _ : κ ↦ α :=
  as.foldl (fun m a ↦ m.insert (key a) a) m

theorem lookup_insertAll_of_ne (m : AList fun _ : κ ↦ α) {k : κ} (h : ∀ a ∈ as, key a ≠ k) :
    (insertAll key m as).lookup k = m.lookup k := by
  induction as generalizing m with
  | nil => rfl
  | cons first as ih =>
      have hfirst : k ≠ key first := fun heq ↦ h first (by simp) heq.symm
      rw [insertAll, List.foldl_cons]
      exact (ih _ fun a ha ↦ h a (by simp [ha])).trans (AList.lookup_insert_ne hfirst)

theorem lookup_insertAll {m : AList fun _ : κ ↦ α} {a : α} (h : IsLast key as a) :
    (insertAll key m as).lookup (key a) = some a := by
  obtain ⟨before, after, rfl, hafter⟩ := h
  rw [insertAll, List.foldl_append, List.foldl_cons]
  exact (lookup_insertAll_of_ne _ hafter).trans (AList.lookup_insert _)

theorem isSome_lookup_insertAll {m : AList fun _ : κ ↦ α} {a : α} (h : a ∈ as) :
    ((insertAll key m as).lookup (key a)).isSome := by
  obtain ⟨b, hb, hlast⟩ := @exists_isLast _ _ key as _ ⟨a, h, rfl⟩
  rw [← hb, lookup_insertAll hlast]
  rfl

/-- Nothing but the items is in the table. -/
theorem mem_entries_insertAll {m : AList fun _ : κ ↦ α} {entry : Sigma fun _ : κ ↦ α}
    (h : entry ∈ (insertAll key m as).entries) :
    entry ∈ m.entries ∨ ∃ a ∈ as, entry = ⟨key a, a⟩ := by
  induction as generalizing m with
  | nil => exact .inl h
  | cons first as ih =>
      rw [insertAll, List.foldl_cons] at h
      rcases ih h with hmem | ⟨a, ha, rfl⟩
      · rw [AList.entries_insert] at hmem
        rcases List.mem_cons.mp hmem with rfl | hmem
        · exact .inr ⟨first, by simp, rfl⟩
        · exact .inl ((List.kerase_sublist _ _).subset hmem)
      · exact .inr ⟨a, by simp [ha], rfl⟩

end Map

/-! ## Slots -/

/-- The slots that hold something, with their indices. -/
def occupied (slots : List (Option α)) : List (ℕ × α) :=
  slots.zipIdx.filterMap fun p ↦ p.1.map (p.2, ·)

theorem mem_occupied {slots : List (Option α)} {i : ℕ} {a : α} :
    (i, a) ∈ occupied slots ↔ slots[i]? = some (some a) := by
  simp only [occupied, List.mem_filterMap, Option.map_eq_some_iff]
  constructor
  · rintro ⟨⟨_, _⟩, hmem, b, rfl, heq⟩
    cases heq
    exact List.mk_mem_zipIdx_iff_getElem?.mp hmem
  · intro h
    exact ⟨(some a, i), List.mk_mem_zipIdx_iff_getElem?.mpr h, a, rfl, rfl⟩

theorem map_snd_occupied (slots : List (Option α)) :
    (occupied slots).map Prod.snd = slots.filterMap id := by
  have hfun : (Option.map Prod.snd ∘ fun p : Option α × ℕ ↦ p.1.map (p.2, ·)) = id ∘ Prod.fst := by
    funext ⟨found, i⟩
    cases found <;> rfl
  rw [occupied, List.map_filterMap, ← List.zipIdx_map_fst 0 slots, List.filterMap_map,
    List.zipIdx_map_fst]
  exact congrArg (fun f ↦ List.filterMap f slots.zipIdx) hfun

theorem pairwise_occupied (slots : List (Option α)) :
    (occupied slots).Pairwise fun p q ↦ p.1 < q.1 := by
  rw [occupied, List.pairwise_filterMap, List.pairwise_iff_getElem]
  intro i j hi hj hlt p hp q hq
  rw [List.getElem_zipIdx] at hp hq
  obtain ⟨a, -, rfl⟩ := Option.map_eq_some_iff.mp hp
  obtain ⟨b, -, rfl⟩ := Option.map_eq_some_iff.mp hq
  simpa using hlt

section Slots

variable {β : Type} {slot : α → ℕ} {item : α → β}

/-- Put every item into its slot. -/
def putAll (slot : α → ℕ) (item : α → β) (slots : List (Option β)) (as : List α) :
    List (Option β) :=
  as.foldl (fun slots a ↦ slots.set (slot a) (some (item a))) slots

@[simp] theorem length_putAll (slots : List (Option β)) :
    (putAll slot item slots as).length = slots.length := by
  induction as generalizing slots with
  | nil => rfl
  | cons a as ih =>
      rw [putAll, List.foldl_cons]
      exact (ih _).trans (List.length_set ..)

/-- A slot that no item belongs to is as before. -/
theorem getElem?_putAll_of_ne (slots : List (Option β)) {i : ℕ} (h : ∀ a ∈ as, slot a ≠ i) :
    (putAll slot item slots as)[i]? = slots[i]? := by
  induction as generalizing slots with
  | nil => rfl
  | cons first as ih =>
      rw [putAll, List.foldl_cons]
      refine (ih _ fun a ha ↦ h a (by simp [ha])).trans (List.getElem?_set_ne ?_)
      exact h first (by simp)

/-- A slot holds the last item that belongs there. -/
theorem getElem?_putAll_of_isLast (slots : List (Option β)) {a : α} (h : IsLast slot as a)
    (hi : slot a < slots.length) :
    (putAll slot item slots as)[slot a]? = some (some (item a)) := by
  obtain ⟨before, after, rfl, hafter⟩ := h
  rw [putAll, List.foldl_append, List.foldl_cons]
  refine (getElem?_putAll_of_ne _ hafter).trans (List.getElem?_set_self ?_)
  exact lt_of_lt_of_eq hi (length_putAll slots).symm

end Slots

end BedrockProtocol
