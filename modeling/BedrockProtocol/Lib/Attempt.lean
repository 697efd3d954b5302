import BedrockProtocol.Lib.Outcome

/-!
# Attempts

A computation over a state that may stop with a message; what it changed before it stopped
stays changed.  A loop over a list either runs to its end or stops at one element, and the
rule for it asks beforehand which elements these are.
-/

namespace BedrockProtocol

abbrev Attempt (σ : Type) := ExceptT String (StateM σ)

namespace Attempt

variable {σ α β : Type} {x : Attempt σ α} {k : α → Attempt σ β} {s s' : σ} {a : α} {e : String}

/-- A check that leaves the state alone. -/
def ofExcept (x : Except String α) : Attempt σ α := fun s ↦ (x, s)

theorem bind_run (h : x s = (.ok a, s')) : (x >>= k) s = k a s' := by
  change (match x s with | (r, s') => ExceptT.bindCont k r s') = _
  rw [h]
  rfl

theorem bind_error (h : x s = (.error e, s')) : (x >>= k) s = (.error e, s') := by
  change (match x s with | (r, s') => ExceptT.bindCont k r s') = _
  rw [h]
  rfl

theorem get_bind (k : σ → Attempt σ β) (s : σ) : (get >>= k) s = k s s := rfl

theorem modify_bind (f : σ → σ) (k : Unit → Attempt σ β) (s : σ) :
    (modify f >>= k) s = k () (f s) := rfl

/-- Whatever the outcome, the state after is related to the state before. -/
def Keeps (R : σ → σ → Prop) (x : Attempt σ α) : Prop := ∀ s, R s (x s).2

namespace Keeps

variable {R : σ → σ → Prop}

theorem pure (hrefl : ∀ s, R s s) (a : α) : Keeps R (Pure.pure a : Attempt σ α) := hrefl

theorem ofExcept (hrefl : ∀ s, R s s) (x : Except String α) : Keeps R (Attempt.ofExcept x) := hrefl

theorem throw (hrefl : ∀ s, R s s) (e : String) : Keeps R (throw e : Attempt σ α) := hrefl

theorem get (hrefl : ∀ s, R s s) : Keeps R (get : Attempt σ σ) := hrefl

theorem modify {f : σ → σ} (h : ∀ s, R s (f s)) : Keeps R (modify f : Attempt σ Unit) := h

theorem bind (htrans : ∀ s s' s'', R s s' → R s' s'' → R s s'') (hx : Keeps R x)
    (hk : ∀ a, Keeps R (k a)) : Keeps R (x >>= k) := by
  intro s
  have hfirst := hx s
  cases hrun : x s with
  | mk result s' =>
      rw [hrun] at hfirst
      cases result with
      | ok a =>
          rw [bind_run hrun]
          exact htrans _ _ _ hfirst (hk a s')
      | error e =>
          rw [bind_error hrun]
          exact hfirst

theorem mono {R' : σ → σ → Prop} (h : ∀ s s', R s s' → R' s s') (hx : Keeps R x) : Keeps R' x :=
  fun s ↦ h _ _ (hx s)

theorem foldlM (hrefl : ∀ s, R s s) (htrans : ∀ s s' s'', R s s' → R s' s'' → R s s'')
    {body : β → α → Attempt σ β} (hbody : ∀ b a, Keeps R (body b a)) (xs : List α) (b : β) :
    Keeps R (xs.foldlM body b) := by
  induction xs generalizing b with
  | nil => exact pure hrefl b
  | cons x xs ih =>
      rw [List.foldlM_cons]
      exact bind htrans (hbody b x) ih

end Keeps

/-- No element of the list is one at which a loop stops, given those before it. -/
def RunsThrough (Stops : List α → α → Prop) (xs : List α) : Prop :=
  ∀ pre x post, xs = pre ++ x :: post → ¬ Stops pre x

theorem runsThrough_nil (Stops : List α → α → Prop) : RunsThrough Stops [] := by
  intro pre x post hsplit
  cases pre <;> cases hsplit

theorem RunsThrough.append {Stops : List α → α → Prop} {xs : List α} {x : α}
    (h : RunsThrough Stops xs) (hx : ¬ Stops xs x) : RunsThrough Stops (xs ++ [x]) := by
  intro pre y post hsplit
  rcases List.append_eq_append_iff.mp hsplit with ⟨rest, rfl, hrest⟩ | ⟨rest, rfl, hrest⟩
  · cases rest with
    | nil =>
        obtain ⟨rfl, -⟩ := List.cons.inj hrest
        rwa [List.append_nil]
    | cons y' rest => simp at hrest
  · cases rest with
    | nil =>
        obtain ⟨rfl, -⟩ := List.cons.inj hrest
        rwa [List.append_nil] at hx
    | cons y' rest =>
        obtain ⟨rfl, -⟩ := List.cons.inj hrest
        exact h pre y rest rfl

theorem runsThrough_const {P : α → Prop} {xs : List α} :
    RunsThrough (fun _ ↦ P) xs ↔ ∀ x ∈ xs, ¬ P x := by
  constructor
  · intro h x hx
    obtain ⟨pre, post, rfl⟩ := List.append_of_mem hx
    exact h pre x post rfl
  · rintro h pre x post rfl
    exact h x (by simp)

/-- The elements in front of the first one of a kind. -/
theorem front_of_first_unique {P : α → Prop} {pre pre' post post' : List α} {x x' : α}
    (h : pre ++ x :: post = pre' ++ x' :: post') (hpre : ∀ y ∈ pre, ¬ P y) (hx : P x)
    (hpre' : ∀ y ∈ pre', ¬ P y) (hx' : P x') : pre = pre' := by
  rcases List.append_eq_append_iff.mp h with ⟨rest, rfl, hrest⟩ | ⟨rest, rfl, hrest⟩
  · cases rest with
    | nil => rw [List.append_nil]
    | cons y rest =>
        obtain ⟨rfl, -⟩ := List.cons.inj hrest
        exact absurd hx (hpre' x (by simp))
  · cases rest with
    | nil => rw [List.append_nil]
    | cons y rest =>
        obtain ⟨rfl, -⟩ := List.cons.inj hrest
        exact absurd hx' (hpre x' (by simp))

/-- A loop that starts in `Inv [] b s`, keeps `Inv` of the elements behind it at those where it
goes on and ends in `Stopped` at the first other one. -/
theorem foldlM_run {body : β → α → Attempt σ β} (Inv : List α → β → σ → Prop)
    (Stops : List α → α → Prop) (Stopped : List α → σ → Prop) (xs : List α)
    (hgo : ∀ pre, ∀ x ∈ xs, ∀ b s, Inv pre b s → ¬ Stops pre x →
      ∃ b' s', body b x s = (.ok b', s') ∧ Inv (pre ++ [x]) b' s')
    (hstop : ∀ pre, ∀ x ∈ xs, ∀ b s, Inv pre b s → Stops pre x →
      ∃ e s', body b x s = (.error e, s') ∧ Stopped pre s')
    {b : β} {s : σ} (h : Inv [] b s) :
    (RunsThrough Stops xs ∧ ∃ b' s', xs.foldlM body b s = (.ok b', s') ∧ Inv xs b' s') ∨
      ∃ pre x post, xs = pre ++ x :: post ∧ RunsThrough Stops pre ∧ Stops pre x ∧
        ∃ e s', xs.foldlM body b s = (.error e, s') ∧ Stopped pre s' := by
  suffices hgen : ∀ seen, RunsThrough Stops seen → Inv seen b s →
      (RunsThrough Stops (seen ++ xs) ∧
          ∃ b' s', xs.foldlM body b s = (.ok b', s') ∧ Inv (seen ++ xs) b' s') ∨
        ∃ pre x post, xs = pre ++ x :: post ∧ RunsThrough Stops (seen ++ pre) ∧
          Stops (seen ++ pre) x ∧
          ∃ e s', xs.foldlM body b s = (.error e, s') ∧ Stopped (seen ++ pre) s' from
    hgen [] (runsThrough_nil Stops) h
  clear h
  induction xs generalizing b s with
  | nil =>
      intro seen hseen h
      rw [List.append_nil]
      exact .inl ⟨hseen, b, s, rfl, h⟩
  | cons x xs ih =>
      intro seen hseen h
      rw [List.foldlM_cons]
      by_cases hx : Stops seen x
      · obtain ⟨e, s', hbody, hstopped⟩ := hstop seen x List.mem_cons_self b s h hx
        refine .inr ⟨[], x, xs, rfl, ?_, ?_, e, s', bind_error hbody, ?_⟩
        · rwa [List.append_nil]
        · rwa [List.append_nil]
        · rwa [List.append_nil]
      · obtain ⟨b', s', hbody, hinv⟩ := hgo seen x List.mem_cons_self b s h hx
        rw [bind_run hbody, List.append_cons]
        rcases ih (fun pre y hy ↦ hgo pre y (List.mem_cons_of_mem x hy))
            (fun pre y hy ↦ hstop pre y (List.mem_cons_of_mem x hy)) (seen ++ [x])
            (hseen.append hx) hinv with hend | ⟨pre, y, post, rfl, hpre, hy, hend⟩
        · exact .inl hend
        · rw [List.append_assoc, List.singleton_append] at hpre hy hend
          exact .inr ⟨x :: pre, y, post, rfl, hpre, hy, hend⟩

end Attempt

end BedrockProtocol
