import BedrockProtocol.Lib.Reader
import BedrockProtocol.Lib.Leb128

/-!
# One reader follows another

`Follows suffix V r r'` says that whatever `r` returns, `r'` returns a related value when
`suffix` stands behind the input, and leaves the suffix.  With no suffix it compares two
readers of the same input, with any suffix it says that a reader looks at nothing but what
it consumes.  Where both readers are known to return something, less is needed of the second.
-/

namespace BedrockProtocol

/-- With `both`, only where the second reader returns something, too. -/
def Follows {α β : Type} (both : Bool) (suffix : List UInt8) (V : α → β → Prop) (r : Reader α)
    (r' : Reader β) : Prop :=
  ∀ c a c₁, r c = .ok (a, c₁) →
    (both = true → ∃ p, r' ⟨c.offset, c.rest ++ suffix⟩ = .ok p) →
    ∃ b, r' ⟨c.offset, c.rest ++ suffix⟩ = .ok (b, ⟨c₁.offset, c₁.rest ++ suffix⟩) ∧ V a b

namespace Follows

variable {α β γ δ : Type} {both : Bool} {suffix : List UInt8} {V : α → β → Prop}
  {W : γ → δ → Prop} {r : Reader α} {r' : Reader β}

theorem mono {V' : α → β → Prop} (h : Follows both suffix V r r')
    (hV : ∀ a b, V a b → V' a b) : Follows both suffix V' r r' := by
  intro c a c₁ hrun hboth
  obtain ⟨b, hrun', hb⟩ := h c a c₁ hrun hboth
  exact ⟨b, hrun', hV a b hb⟩

/-- A reader follows itself on the same input. -/
theorem self (r : Reader α) : Follows both [] Eq r r := by
  intro c a c₁ hrun _
  exact ⟨a, by rw [List.append_nil, List.append_nil]; exact hrun, rfl⟩

/-- On the same input, the second reader returns a related value and leaves as much. -/
theorem same_input (h : Follows false [] V r r') {c c₁ : Cursor} {a : α} (hrun : r c = .ok (a, c₁)) :
    ∃ b, r' c = .ok (b, c₁) ∧ V a b := by
  obtain ⟨b, hrun', hab⟩ := h c a c₁ hrun fun hboth ↦ Bool.noConfusion hboth
  rw [List.append_nil, List.append_nil] at hrun'
  exact ⟨b, hrun', hab⟩

/-- What the first reader yields is known of the related value, too. -/
theorem and_yields {P : α → Prop} (h : Follows both suffix V r r') (hP : Yields r P) :
    Follows both suffix (fun a b ↦ V a b ∧ P a) r r' := by
  intro c a c₁ hrun hboth
  obtain ⟨b, hrun', hab⟩ := h c a c₁ hrun hboth
  exact ⟨b, hrun', hab, hP c a c₁ hrun⟩

theorem ite {P : Prop} [Decidable P] {s : Reader α} {s' : Reader β} (hr : P → Follows both suffix V r r')
    (hs : ¬P → Follows both suffix V s s') :
    Follows both suffix V (if P then r else s) (if P then r' else s') := by
  by_cases h : P
  · rw [if_pos h, if_pos h]
    exact hr h
  · rw [if_neg h, if_neg h]
    exact hs h

theorem pure {a : α} {b : β} (h : V a b) :
    Follows both suffix V (Pure.pure a : Reader α) (Pure.pure b : Reader β) := by
  intro c a' c₁ hrun _
  cases hrun
  exact ⟨b, rfl, h⟩

/-- Nothing follows from an error. -/
theorem throw (e : String) : Follows both suffix V (throw e : Reader α) r' := by
  intro c a c₁ hrun _
  cases hrun

/-- Where both have to return something, nothing follows from the error of the second. -/
theorem throw_right (e : String) : Follows true suffix V r (MonadExcept.throw e : Reader β) := by
  intro c a c₁ _ hboth
  obtain ⟨p, hp⟩ := hboth rfl
  cases hp

theorem bind {k : α → Reader γ} {k' : β → Reader δ} (hr : Follows both suffix V r r')
    (hk : ∀ a b, V a b → Follows both suffix W (k a) (k' b)) :
    Follows both suffix W (r >>= k) (r' >>= k') := by
  intro c d c₂ hrun hboth
  obtain ⟨a, c₁, hfirst, hrest⟩ := Reader.run_bind_eq_ok hrun
  obtain ⟨b, hfirst', hab⟩ := hr c a c₁ hfirst fun htrue ↦ by
    obtain ⟨⟨d', c'⟩, hrun'⟩ := hboth htrue
    obtain ⟨b, c₁', hfirst', -⟩ := Reader.run_bind_eq_ok hrun'
    exact ⟨(b, c₁'), hfirst'⟩
  rw [Reader.bind_run hfirst'] at hboth ⊢
  exact hk a b hab c₁ d c₂ hrest hboth

theorem map {f : α → γ} {g : β → δ} (hr : Follows both suffix V r r')
    (hfg : ∀ a b, V a b → W (f a) (g b)) : Follows both suffix W (f <$> r) (g <$> r') := by
  rw [map_eq_pure_bind, map_eq_pure_bind]
  exact hr.bind fun a b hab ↦ pure (hfg a b hab)

theorem mapError {f g : String → String} (hr : Follows both suffix V r r') :
    Follows both suffix V (Reader.mapError f r) (Reader.mapError g r') := by
  intro c a c₁ hrun hboth
  rw [Reader.mapError] at hrun
  cases hr' : r c with
  | error e => rw [hr'] at hrun; cases hrun
  | ok p =>
      rw [hr'] at hrun
      obtain rfl := Except.ok.inj hrun
      obtain ⟨b, hb, hab⟩ := hr c a c₁ hr' fun htrue ↦ by
        obtain ⟨p, hrun'⟩ := hboth htrue
        rw [Reader.mapError] at hrun'
        cases hsecond : r' ⟨c.offset, c.rest ++ suffix⟩ with
        | error e => rw [hsecond] at hrun'; cases hrun'
        | ok p => exact ⟨p, rfl⟩
      exact ⟨b, by rw [Reader.mapError, hb]; rfl, hab⟩

/-- Computations that read nothing. -/
theorem lift {x : Except String α} {x' : Except String β}
    (h : ∀ a, x = .ok a → ∃ b, x' = .ok b ∧ V a b) :
    Follows both suffix V (liftM x : Reader α) (liftM x' : Reader β) := by
  intro c a c₁ hrun _
  obtain ⟨rfl, rfl⟩ := Reader.lift_eq_ok.mp hrun
  obtain ⟨b, rfl, hab⟩ := h a rfl
  exact ⟨b, rfl, hab⟩

theorem lift_self {V : α → α → Prop} {x : Except String α} (h : ∀ a, x = .ok a → V a a) :
    Follows both suffix V (liftM x : Reader α) (liftM x : Reader α) :=
  lift fun a ha ↦ ⟨a, ha, h a ha⟩

theorem offset : Follows both suffix Eq Reader.offset Reader.offset := by
  intro c a c₁ hrun _
  cases hrun
  exact ⟨_, rfl, rfl⟩

theorem get : Follows both suffix (fun c c' ↦ c' = ⟨c.offset, c.rest ++ suffix⟩) MonadState.get
    MonadState.get := by
  intro c a c₁ hrun _
  cases hrun
  exact ⟨_, rfl, rfl⟩

theorem set (c : Cursor) : Follows both suffix (fun _ _ ↦ True) (MonadStateOf.set c)
    (MonadStateOf.set (⟨c.offset, c.rest ++ suffix⟩ : Cursor)) := by
  intro c' a c₁ hrun _
  cases hrun
  exact ⟨_, rfl, True.intro⟩

theorem byte (short short' : Cursor → String) :
    Follows both suffix Eq (Reader.byte short) (Reader.byte short') := by
  rintro ⟨offset, rest⟩ b c₁ hrun _
  cases rest with
  | nil => cases hrun
  | cons x rest =>
      cases hrun
      exact ⟨_, rfl, rfl⟩

/-- How much input is left, and how much with the suffix. -/
theorem remaining :
    Follows both suffix (fun n m ↦ m = n + suffix.length) Reader.remaining Reader.remaining := by
  intro c a c₁ hrun _
  cases hrun
  exact ⟨_, rfl, List.length_append⟩

/-- A look at the next byte, by a reader that needs one. -/
theorem peek {k : Option UInt8 → Reader α} {k' : Option UInt8 → Reader β}
    (hnone : ∃ e, k none = MonadExcept.throw e)
    (hsome : ∀ b, Follows both suffix V (k (some b)) (k' (some b))) :
    Follows both suffix V (Reader.peek >>= k) (Reader.peek >>= k') := by
  rintro ⟨offset, rest⟩ a c₁ hrun hboth
  cases rest with
  | nil =>
      obtain ⟨e, he⟩ := hnone
      change k none ⟨offset, []⟩ = _ at hrun
      rw [he] at hrun
      cases hrun
  | cons b rest => exact hsome b ⟨offset, b :: rest⟩ a c₁ hrun hboth

theorem take (n : ℕ) (short short' : Cursor → String) :
    Follows both suffix Eq (Reader.take n short) (Reader.take n short') := by
  intro c bytes c₁ hrun _
  unfold Reader.take at hrun
  split at hrun
  · rename_i hle
    cases hrun
    refine ⟨_, ?_, rfl⟩
    rw [Reader.take, if_pos (by simp; omega), List.take_append_of_le_length hle,
      List.drop_append_of_le_length hle]
  · cases hrun

theorem many (hr : Follows both suffix V r r') (n : ℕ) :
    Follows both suffix (List.Forall₂ V) (Reader.many r n) (Reader.many r' n) := by
  induction n with
  | zero => exact pure .nil
  | succ n ih => exact hr.bind fun a b hab ↦ ih.bind fun as bs habs ↦ pure (.cons hab habs)

theorem many_eq {r : Reader α} (hr : Follows both suffix Eq r r) (n : ℕ) :
    Follows both suffix Eq (Reader.many r n) (Reader.many r n) :=
  (hr.many n).mono fun as bs h ↦ by rwa [List.forall₂_eq_eq_eq] at h

/-- A loop over a list, one step after the other. -/
theorem foldlM {ι : Type} {f : α → ι → Reader α} {g : β → ι → Reader β} (items : List ι)
    (hstep : ∀ i ∈ items, ∀ a b, V a b → Follows both suffix V (f a i) (g b i)) {a : α} {b : β}
    (hab : V a b) : Follows both suffix V (items.foldlM f a) (items.foldlM g b) := by
  induction items generalizing a b with
  | nil => exact pure hab
  | cons i items ih =>
      rw [List.foldlM_cons, List.foldlM_cons]
      refine (hstep i List.mem_cons_self a b hab).bind fun a' b' hab' ↦ ?_
      exact ih (fun j hj ↦ hstep j (List.mem_cons_of_mem i hj)) hab'

/-- What a reader with enough input left does, when the other has as much. -/
theorem guardRemaining {k : ℕ → Reader α} {k' : ℕ → Reader β} (size : ℕ)
    (hk : ∀ n m, size ≤ n → size ≤ m → Follows both suffix V (k n) (k' m))
    (hshort : ∀ n, n < size → ∃ e, k n = MonadExcept.throw e) :
    Follows both suffix V (Reader.remaining >>= k) (Reader.remaining >>= k') := by
  intro c a c₁ hrun hboth
  rw [Reader.remaining_run] at hrun hboth
  by_cases hsize : size ≤ c.rest.length
  · rw [Reader.remaining_run]
    exact hk _ _ hsize (by simp; omega) c a c₁ hrun hboth
  · obtain ⟨e, he⟩ := hshort _ (not_le.mp hsize)
    rw [he] at hrun
    cases hrun

theorem readLeb128 {byte : ℕ → Reader UInt8}
    (hbyte : ∀ shift, Follows both suffix Eq (byte shift) (byte shift))
    (tooLong : String) (w groups shift acc : ℕ) :
    Follows both suffix Eq (BedrockProtocol.readLeb128 byte tooLong w groups shift acc)
      (BedrockProtocol.readLeb128 byte tooLong w groups shift acc) := by
  induction groups generalizing shift acc with
  | zero => exact throw _
  | succ groups ih =>
      refine (hbyte shift).bind ?_
      rintro b _ rfl
      split
      · exact pure rfl
      · exact ih _ _

end Follows

/-- A reader that looks at nothing but what it consumes. -/
abbrev LooksNoFurther {α : Type} (r : Reader α) : Prop :=
  ∀ ⦃both : Bool⦄ (suffix : List UInt8), Follows both suffix Eq r r

namespace LooksNoFurther

variable {α β : Type} {r : Reader α}

theorem pure (a : α) : LooksNoFurther (Pure.pure a : Reader α) := fun _ _ ↦ Follows.pure rfl

theorem throw (e : String) : LooksNoFurther (throw e : Reader α) := fun _ _ ↦ Follows.throw e

theorem bind {k : α → Reader β} (hr : LooksNoFurther r) (hk : ∀ a, LooksNoFurther (k a)) :
    LooksNoFurther (r >>= k) :=
  fun _ suffix ↦ (hr suffix).bind fun a _ hab ↦ hab ▸ hk a suffix

theorem map (f : α → β) (hr : LooksNoFurther r) : LooksNoFurther (f <$> r) :=
  fun _ suffix ↦ (hr suffix).map fun _ _ hab ↦ congrArg f hab

theorem lift (x : Except String α) : LooksNoFurther (liftM x : Reader α) :=
  fun _ _ ↦ Follows.lift_self fun _ _ ↦ rfl

theorem offset : LooksNoFurther Reader.offset := fun _ _ ↦ Follows.offset

theorem byte (short : Cursor → String) : LooksNoFurther (Reader.byte short) :=
  fun _ _ ↦ Follows.byte short short

theorem take (n : ℕ) (short : Cursor → String) : LooksNoFurther (Reader.take n short) :=
  fun _ _ ↦ Follows.take n short short

theorem ite {P : Prop} [Decidable P] {s : Reader α} (hr : P → LooksNoFurther r)
    (hs : ¬P → LooksNoFurther s) : LooksNoFurther (if P then r else s) :=
  fun _ suffix ↦ Follows.ite (fun h ↦ hr h suffix) fun h ↦ hs h suffix

theorem peek {k : Option UInt8 → Reader β} (hnone : ∃ e, k none = MonadExcept.throw e)
    (hsome : ∀ b, LooksNoFurther (k (some b))) : LooksNoFurther (Reader.peek >>= k) :=
  fun _ suffix ↦ Follows.peek hnone fun b ↦ hsome b suffix

theorem many (hr : LooksNoFurther r) (n : ℕ) : LooksNoFurther (Reader.many r n) :=
  fun _ suffix ↦ (hr suffix).many_eq n

theorem readLeb128 {byte : ℕ → Reader UInt8} (hbyte : ∀ shift, LooksNoFurther (byte shift))
    (tooLong : String) (w groups shift acc : ℕ) :
    LooksNoFurther (BedrockProtocol.readLeb128 byte tooLong w groups shift acc) :=
  fun _ suffix ↦ Follows.readLeb128 (fun s ↦ hbyte s suffix) tooLong w groups shift acc

end LooksNoFurther

end BedrockProtocol
