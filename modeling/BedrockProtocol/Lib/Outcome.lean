import Mathlib.Data.List.Forall2
import Mathlib.Logic.Basic

/-!
# Fallible computations

The code reports failure by throwing; here a fallible function returns an
`Except String`.  These rules take a computation that succeeded apart into its
steps, and run one whose steps are known.
-/

namespace BedrockProtocol

variable {α β ε : Type}

@[simp] theorem ok_bind (a : α) (f : α → Except ε β) : (Except.ok a >>= f) = f a := rfl

@[simp] theorem error_bind (e : ε) (f : α → Except ε β) :
    ((Except.error e : Except ε α) >>= f) = .error e := rfl

@[simp] theorem pure_eq_ok (a : α) : (pure a : Except ε α) = .ok a := rfl

@[simp] theorem throw_eq_error (e : ε) : (throw e : Except ε α) = .error e := rfl

@[simp] theorem map_ok (f : α → β) (a : α) : f <$> (Except.ok a : Except ε α) = .ok (f a) := rfl

@[simp] theorem map_error (f : α → β) (e : ε) :
    f <$> (Except.error e : Except ε α) = .error e := rfl

/-- A sequence succeeds exactly when each of its steps does. -/
theorem bind_eq_ok {x : Except ε α} {f : α → Except ε β} {b : β} :
    (x >>= f) = .ok b ↔ ∃ a, x = .ok a ∧ f a = .ok b := by
  cases x <;> simp

theorem map_eq_ok {x : Except ε α} {f : α → β} {b : β} :
    f <$> x = .ok b ↔ ∃ a, x = .ok a ∧ f a = b := by
  cases x <;> simp

/-- A loop that collects results succeeds if every turn does. -/
theorem mapM_eq_ok {f : α → Except ε β} {g : α → β} {as : List α}
    (h : ∀ a ∈ as, f a = .ok (g a)) : as.mapM f = .ok (as.map g) := by
  induction as with
  | nil => rfl
  | cons a as ih =>
      rw [List.mapM_cons, h a (by simp), ih fun b hb ↦ h b (by simp [hb])]
      rfl

/-- The results of a loop that succeeded are those of its turns. -/
theorem mapM_eq_ok_iff {f : α → Except ε β} {as : List α} {bs : List β} :
    as.mapM f = .ok bs ↔ List.Forall₂ (fun a b ↦ f a = .ok b) as bs := by
  induction as generalizing bs with
  | nil =>
      rw [List.forall₂_nil_left_iff, List.mapM_nil, pure_eq_ok, Except.ok.injEq]
      exact eq_comm
  | cons a as ih =>
      rw [List.mapM_cons]
      constructor
      · intro h
        obtain ⟨b, hfirst, h⟩ := bind_eq_ok.mp h
        obtain ⟨rest, hrest, h⟩ := bind_eq_ok.mp h
        obtain rfl := Except.ok.inj h
        exact .cons hfirst (ih.mp hrest)
      · rintro (_ | ⟨hfirst, hrest⟩)
        rw [hfirst, ih.mpr hrest]
        rfl

/-- Every item of two lists that are related item by item has a partner. -/
theorem exists_right_of_forall₂ {R : α → β → Prop} {as : List α} {bs : List β}
    (h : List.Forall₂ R as bs) {a : α} (ha : a ∈ as) : ∃ b ∈ bs, R a b := by
  induction h with
  | nil => cases ha
  | cons hfirst _ ih =>
      rcases List.mem_cons.mp ha with rfl | ha
      · exact ⟨_, by simp, hfirst⟩
      · obtain ⟨b, hb, hR⟩ := ih ha
        exact ⟨b, by simp [hb], hR⟩

theorem exists_left_of_forall₂ {R : α → β → Prop} {as : List α} {bs : List β}
    (h : List.Forall₂ R as bs) {b : β} (hb : b ∈ bs) : ∃ a ∈ as, R a b :=
  exists_right_of_forall₂ h.flip hb

/-- A loop succeeds if every turn does, with the results that the turns can have. -/
theorem exists_mapM_eq_ok {f : α → Except ε β} {R : α → β → Prop} {as : List α}
    (h : ∀ a ∈ as, ∃ b, f a = .ok b ∧ R a b) :
    ∃ bs, as.mapM f = .ok bs ∧ List.Forall₂ R as bs := by
  induction as with
  | nil => exact ⟨[], rfl, .nil⟩
  | cons a as ih =>
      obtain ⟨b, hb, hR⟩ := h a (by simp)
      obtain ⟨bs, hbs, hall⟩ := ih fun a' ha' ↦ h a' (by simp [ha'])
      refine ⟨b :: bs, ?_, .cons hR hall⟩
      rw [List.mapM_cons, hb, hbs]
      rfl

/-- Every turn of a loop that succeeded did, at a value that the loop can come to. -/
theorem foldlM_turns {P : β → Prop} {f : β → α → Except ε β} {as : List α} {b b' : β}
    (hturn : ∀ a ∈ as, ∀ b b', P b → f b a = .ok b' → P b') (h : as.foldlM f b = .ok b') (hb : P b) :
    ∀ a ∈ as, ∃ c c', P c ∧ f c a = .ok c' := by
  induction as generalizing b with
  | nil => simp
  | cons first as ih =>
      rw [List.foldlM_cons] at h
      obtain ⟨next, hfirst, hrest⟩ := bind_eq_ok.mp h
      intro a ha
      rcases List.mem_cons.mp ha with rfl | ha
      · exact ⟨b, next, hb, hfirst⟩
      · exact ih (fun a ha ↦ hturn a (by simp [ha])) hrest (hturn first (by simp) b next hb hfirst) a ha

/-- `x` throws. -/
def Throws (x : Except ε α) : Prop := ∃ e, x = .error e

@[simp] theorem throws_error (e : ε) : Throws (Except.error e : Except ε α) := ⟨e, rfl⟩

@[simp] theorem not_throws_ok (a : α) : ¬ Throws (Except.ok a : Except ε α) := by
  rintro ⟨e, h⟩
  cases h

end BedrockProtocol
