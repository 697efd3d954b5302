import BedrockProtocol.Lib.Simulation

/-!
# Readers that are decided by what they consume

`SelfContained r` says that wherever `r` succeeds, the bytes that it consumed make it succeed with
the same value alone, in front of anything and from any offset.  The property composes along the
monad.
-/

namespace BedrockProtocol

/-- Every success of the reader is decided by the bytes it consumed. -/
def SelfContained {α : Type} (r : Reader α) : Prop := Recognizes r (Reads r)

namespace SelfContained

variable {α β : Type} {r : Reader α}

theorem pure (a : α) : SelfContained (Pure.pure a : Reader α) :=
  Recognizes.pure (Reads.pure a)

theorem throw (e : String) : SelfContained (throw e : Reader α) := Recognizes.throw e

theorem bind {k : α → Reader β} (hr : SelfContained r) (hk : ∀ a, SelfContained (k a)) :
    SelfContained (r >>= k) :=
  Recognizes.bind hr fun _ a ha ↦ (hk a).mono fun _ _ hb ↦ ha.bind hb

theorem map (f : α → β) (hr : SelfContained r) : SelfContained (f <$> r) := by
  rw [map_eq_pure_bind]
  exact hr.bind fun a ↦ pure (f a)

theorem lift (x : Except String α) : SelfContained (liftM x : Reader α) :=
  Recognizes.lift fun _ ha ↦ Reads.lift ha

theorem byte (short : Cursor → String) : SelfContained (Reader.byte short) := by
  refine Recognizes.byte.mono ?_
  rintro _ b rfl
  exact Reads.byte b

theorem take (n : ℕ) (short : Cursor → String) : SelfContained (Reader.take n short) := by
  refine Recognizes.take.mono ?_
  rintro value _ ⟨rfl, hlength⟩
  exact Reads.take value hlength

theorem many (hr : SelfContained r) (n : ℕ) : SelfContained (Reader.many r n) := by
  induction n with
  | zero => exact pure []
  | succ n ih => exact hr.bind fun a ↦ ih.bind fun as ↦ pure (a :: as)

theorem readLeb128 {byte : ℕ → Reader UInt8} (hbyte : ∀ shift, SelfContained (byte shift))
    (tooLong : String) (w groups shift acc : ℕ) :
    SelfContained (BedrockProtocol.readLeb128 byte tooLong w groups shift acc) := by
  induction groups generalizing shift acc with
  | zero => exact throw tooLong
  | succ groups ih =>
      refine (hbyte shift).bind fun b ↦ ?_
      dsimp only
      split
      · exact pure _
      · exact ih _ _

/-- A check that enough input is left, in front of a reader that takes as much. -/
theorem guarded {size width : ℕ} {e : String} (hwidth : 0 < width) (hr : SelfContained r)
    (hsize : Consumes r (size * width)) :
    SelfContained (do if (← Reader.remaining) / width < size then MonadExcept.throw e else r) := by
  intro c a c' hrun
  rw [Reader.remaining_run] at hrun
  split at hrun
  · cases hrun
  · obtain ⟨bytes, hrest, hreads⟩ := hr c a c' hrun
    have hlength := hsize c a c' hrun
    rw [hrest, List.length_append] at hlength
    refine ⟨bytes, hrest, reads_remaining_bind fun n hn ↦ ?_⟩
    have henough : ¬n / width < size := by
      rw [not_lt, Nat.le_div_iff_mul_le hwidth]
      omega
    rw [if_neg henough]
    exact hreads

/-- What follows makes no difference to the reader. -/
theorem looksNoFurther (hr : SelfContained r) : LooksNoFurther r := by
  intro both suffix c a c₁ hrun _
  obtain ⟨bytes, hrest, hreads⟩ := hr c a c₁ hrun
  have hsame := hreads c.offset c₁.rest
  rw [← hrest, hrun] at hsame
  have hoffset : c₁.offset = c.offset + bytes.length :=
    congrArg (fun p ↦ p.2.offset) (Except.ok.inj hsame)
  refine ⟨a, ?_, rfl⟩
  rw [hrest, List.append_assoc, hreads, hoffset]

/-- The consumed bytes alone are read to their end. -/
theorem read_consumed (hr : SelfContained r) {c c' : Cursor} {a : α} (hrun : r c = .ok (a, c')) :
    r (Cursor.start (c.rest.take (c'.offset - c.offset))) =
      .ok (a, ⟨c'.offset - c.offset, []⟩) := by
  obtain ⟨bytes, hrest, hreads⟩ := hr c a c' hrun
  have hsame := hreads c.offset c'.rest
  rw [← hrest, hrun] at hsame
  have hoffset : c'.offset = c.offset + bytes.length :=
    congrArg (fun p ↦ p.2.offset) (Except.ok.inj hsame)
  have halone := hreads.start []
  rw [List.append_nil] at halone
  rw [hrest, hoffset, Nat.add_sub_cancel_left, List.take_left]
  exact halone

end SelfContained

end BedrockProtocol
