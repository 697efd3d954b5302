import Mathlib.Data.List.TakeDrop
import Mathlib.Tactic.Linarith

/-!
# Back references

The copy element of a Lempel-Ziv format: repeat, byte by byte, what was
produced `offset` bytes earlier.  The source of a copy may overlap the bytes it
produces.  A copy whose source and target agree in some text extends a prefix
of that text by the length of the copy.
-/

namespace BedrockProtocol

variable {α : Type} [Inhabited α]

/-- Produce `n` more elements, each equal to the one `offset` positions back. -/
def copyBack (offset : ℕ) : ℕ → List α → List α
  | 0, out => out
  | n + 1, out => copyBack offset n (out ++ [out.getD (out.length - offset) default])

@[simp] theorem length_copyBack (offset n : ℕ) (out : List α) :
    (copyBack offset n out).length = out.length + n := by
  induction n generalizing out with
  | zero => rfl
  | succ n ih =>
      rw [copyBack, ih]
      simp
      omega

/-- Source and target agree, so the copy reproduces the text. -/
theorem copyBack_take (text : List α) (n : ℕ) : ∀ source target, source < target →
    target + n ≤ text.length → (∀ i < n, text[source + i]? = text[target + i]?) →
    copyBack (target - source) n (text.take target) = text.take (target + n) := by
  -- Source and target move up together, so the distance between them stays.
  induction n with
  | zero => simp [copyBack]
  | succ n ih =>
      intro source target hlt hlen hagree
      have hlast : (text.take target).length = target := by
        rw [List.length_take]
        omega
      have hbyte : (text.take target).getD (target - (target - source)) default =
          text[target] := by
        have h0 := hagree 0 (by omega)
        have hidx : target - (target - source) = source := by omega
        rw [Nat.add_zero, Nat.add_zero, List.getElem?_eq_getElem (i := target)] at h0
        rw [hidx, List.getD_eq_getElem?_getD, List.getElem?_take, if_pos hlt, h0]
        rfl
      have hstep := ih (source + 1) (target + 1) (by omega) (by omega) (by
        intro i hi
        have := hagree (i + 1) (by omega)
        simpa [Nat.add_assoc, Nat.add_comm 1 i] using this)
      rw [copyBack, hlast, hbyte, List.take_append_getElem (by omega)]
      rw [Nat.add_sub_add_right] at hstep
      rw [hstep]
      congr 1
      omega

end BedrockProtocol
