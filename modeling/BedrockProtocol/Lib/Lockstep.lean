import BedrockProtocol.Lib.Reader

/-!
# Two fallible computations in lockstep

Two computations that work on different data are compared step by step: both
return, and the values are related, or both throw, and the reasons are.  The
relation follows the shape of the monad, so a program over concrete buffers is
compared with a reader one statement at a time.
-/

namespace BedrockProtocol

variable {ε ε' α α' β β' : Type}

/-- Both computations return related values or both throw for related reasons. -/
inductive Lockstep (E : ε → ε' → Prop) (R : α → β → Prop) (x : Except ε α) (y : Except ε' β) : Prop
  | ok {a : α} {b : β} (hx : x = .ok a) (hy : y = .ok b) (h : R a b) : Lockstep E R x y
  | error {e : ε} {e' : ε'} (hx : x = .error e) (hy : y = .error e') (h : E e e') : Lockstep E R x y

namespace Lockstep

variable {E : ε → ε' → Prop} {R : α → β → Prop} {S : α' → β' → Prop}

theorem pure {a : α} {b : β} (h : R a b) : Lockstep E R (.ok a) (.ok b) := .ok rfl rfl h

theorem throw {e : ε} {e' : ε'} (h : E e e') : Lockstep E R (.error e) (.error e') :=
  .error rfl rfl h

theorem bind {x : Except ε α} {y : Except ε' β} {f : α → Except ε α'} {g : β → Except ε' β'}
    (h : Lockstep E R x y) (hf : ∀ a b, R a b → Lockstep E S (f a) (g b)) :
    Lockstep E S (x >>= f) (y >>= g) := by
  cases h with
  | ok hx hy hab =>
      subst hx hy
      exact hf _ _ hab
  | error hx hy he =>
      subst hx hy
      exact throw he

/-- A step of the left computation alone. -/
theorem bind_left {x : Except ε α} {f : α → Except ε α'} {y : Except ε' β'} {a : α}
    (hx : x = .ok a) (hf : Lockstep E S (f a) y) : Lockstep E S (x >>= f) y := by
  subst hx
  exact hf

/-- A step of a reader beside a step of the left computation. -/
theorem bind_reader {E : ε → String → Prop} {R : α → β × Cursor → Prop} {S : α' → β' × Cursor → Prop}
    {x : Except ε α} {r : Reader β} {c : Cursor} {f : α → Except ε α'} {k : β → Reader β'}
    (h : Lockstep E R x (r c)) (hf : ∀ a b c', R a (b, c') → Lockstep E S (f a) (k b c')) :
    Lockstep E S (x >>= f) ((r >>= k) c) :=
  h.bind fun a p hab ↦ hf a p.1 p.2 hab

theorem ite {p : Prop} [Decidable p] {x x' : Except ε α} {y y' : Except ε' β}
    (ht : p → Lockstep E R x y) (hf : ¬ p → Lockstep E R x' y') :
    Lockstep E R (if p then x else x') (if p then y else y') := by
  split
  · exact ht ‹_›
  · exact hf ‹_›

theorem mono {R' : α → β → Prop} {x : Except ε α} {y : Except ε' β} (h : Lockstep E R x y)
    (hR : ∀ a b, R a b → R' a b) : Lockstep E R' x y := by
  cases h with
  | ok hx hy hab => exact .ok hx hy (hR _ _ hab)
  | error hx hy he => exact .error hx hy he

end Lockstep

end BedrockProtocol
