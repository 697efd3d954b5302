import Mathlib.Data.List.Basic
import Mathlib.Data.List.Range

/-!
# Iterators and their legs

An iterator is a state and a step that yields a value or the end marker and
moves on.  `Runs next s as s'` says that the step yields `as` in order between
`s` and `s'`, `YieldsToEnd next s as` that an end marker follows.  Runs compose,
so an iterator that turns corners is followed leg by leg.
-/

namespace BedrockProtocol

variable {σ α : Type} {next : σ → Option α × σ}

inductive Runs (next : σ → Option α × σ) : σ → List α → σ → Prop
  | stop (s : σ) : Runs next s [] s
  | step {s s' s'' : σ} {a : α} {as : List α} (hfirst : next s = (some a, s'))
      (hrest : Runs next s' as s'') : Runs next s (a :: as) s''

/-- The values up to the first end marker. -/
def YieldsToEnd (next : σ → Option α × σ) (s : σ) (as : List α) : Prop :=
  ∃ s', Runs next s as s' ∧ (next s').1 = none

namespace Runs

theorem append {s s' s'' : σ} {as bs : List α} (h : Runs next s as s') (h' : Runs next s' bs s'') :
    Runs next s (as ++ bs) s'' := by
  induction h with
  | stop s => exact h'
  | step hfirst _ ih => exact .step hfirst (ih h')

theorem single {s s' : σ} {a : α} (h : next s = (some a, s')) : Runs next s [a] s' :=
  .step h (.stop s')

/-- Runs one after the other. -/
theorem laps (state : ℕ → σ) (lap : ℕ → List α) (k : ℕ)
    (h : ∀ i < k, Runs next (state i) (lap i) (state (i + 1))) :
    Runs next (state 0) ((List.range k).flatMap lap) (state k) := by
  induction k with
  | zero => exact .stop _
  | succ k ih =>
      rw [List.range_succ, List.flatMap_append, List.flatMap_singleton]
      exact (ih fun i hi ↦ h i (by omega)).append (h k (by omega))

/-- Steps one after the other. -/
theorem leg (state : ℕ → σ) (value : ℕ → α) (k : ℕ)
    (h : ∀ i < k, next (state i) = (some (value i), state (i + 1))) :
    Runs next (state 0) ((List.range k).map value) (state k) := by
  have hlaps := laps state (fun i ↦ [value i]) k fun i hi ↦ single (h i hi)
  rwa [← List.map_eq_flatMap] at hlaps

end Runs

namespace YieldsToEnd

/-- The values are determined by the state. -/
theorem unique {s : σ} {as bs : List α} (h : YieldsToEnd next s as)
    (h' : YieldsToEnd next s bs) : as = bs := by
  obtain ⟨last, hrun, hend⟩ := h
  obtain ⟨last', hrun', hend'⟩ := h'
  induction hrun generalizing bs with
  | stop s =>
      cases hrun' with
      | stop => rfl
      | step hfirst _ =>
          rw [hfirst] at hend
          cases hend
  | step hfirst _ ih =>
      cases hrun' with
      | stop =>
          rw [hfirst] at hend'
          cases hend'
      | step hfirst' hrest' =>
          rw [hfirst] at hfirst'
          cases hfirst'
          rw [ih hend hrest']

end YieldsToEnd

end BedrockProtocol
