import BedrockProtocol.World.WorldIterators
import Mathlib.Tactic.NormNum
import Mathlib.Tactic.Linarith

/-!
# The order of the spiral iterator

From the cell `(k + 1, -k)` the iterator goes up, left, down and right along the
shell of the cells at Chebyshev distance `k + 1`, and the last segment ends in
the next shell.  The counter of the points ends the run: it is the square of
`2 n - 1` as long as doubles hold that square.
-/

namespace BedrockProtocol

namespace SpiralIterator2d

/-! ## Shells -/

/-- The cells of a segment. -/
def along (start dir : ℤ × ℤ) (t : ℕ) : ℤ × ℤ := (start.1 + dir.1 * t, start.2 + dir.2 * t)

def segment (start dir : ℤ × ℤ) (length : ℕ) : List (ℤ × ℤ) :=
  (List.range length).map (along start dir)

/-- The cells at Chebyshev distance `k + 1`. -/
def shell (k : ℕ) : List (ℤ × ℤ) :=
  segment (k + 1, -k) (0, 1) (2 * k + 1) ++
    segment (k + 1, k + 1) (-1, 0) (2 * k + 2) ++
    segment (-(k + 1), k + 1) (0, -1) (2 * k + 2) ++
    segment (-(k + 1), -(k + 1)) (1, 0) (2 * k + 3)

/-- The Chebyshev distance of an offset. -/
def radius (d : ℤ × ℤ) : ℤ := max |d.1| |d.2|

theorem mem_shell (k : ℕ) (d : ℤ × ℤ) : d ∈ shell k ↔ radius d = k + 1 := by
  obtain ⟨dx, dz⟩ := d
  have hradius : radius (dx, dz) = k + 1 ↔ -(k + 1) ≤ dx ∧ dx ≤ k + 1 ∧ -(k + 1) ≤ dz ∧
      dz ≤ k + 1 ∧ (dx = k + 1 ∨ dx = -(k + 1) ∨ dz = k + 1 ∨ dz = -(k + 1)) := by
    have hx := abs_cases dx
    have hz := abs_cases dz
    simp only [radius]
    omega
  rw [hradius]
  simp only [shell, segment, along, List.mem_append, List.mem_map, List.mem_range, Prod.mk.injEq]
  constructor
  · rintro (((⟨t, ht, hx, hz⟩ | ⟨t, ht, hx, hz⟩) | ⟨t, ht, hx, hz⟩) | ⟨t, ht, hx, hz⟩) <;> omega
  · rintro ⟨hx, hx', hz, hz', hside⟩
    -- The corner of two sides belongs to the segment that starts there.
    by_cases hbottom : dz = -(k + 1)
    · exact .inr ⟨(dx + (k + 1)).toNat, by omega, by omega, by omega⟩
    by_cases hleft : dx = -(k + 1)
    · exact .inl (.inr ⟨((k + 1) - dz).toNat, by omega, by omega, by omega⟩)
    by_cases htop : dz = k + 1
    · exact .inl (.inl (.inr ⟨((k + 1) - dx).toNat, by omega, by omega, by omega⟩))
    · exact .inl (.inl (.inl ⟨(dz + k).toNat, by omega, by omega, by omega⟩))

theorem nodup_shell (k : ℕ) : (shell k).Nodup := by
  have hsegment {start dir : ℤ × ℤ} (hdir : dir.1 = 1 ∨ dir.1 = -1 ∨ dir.2 = 1 ∨ dir.2 = -1)
      (length : ℕ) : (segment start dir length).Nodup := by
    refine List.nodup_range.map fun t t' h ↦ ?_
    simp only [along, Prod.mk.injEq, add_right_inj] at h
    obtain hd | hd | hd | hd := hdir <;> rw [hd] at h <;> omega
  rw [shell, List.nodup_append, List.nodup_append, List.nodup_append]
  refine ⟨⟨⟨hsegment (by simp) _, hsegment (by simp) _, ?second⟩, hsegment (by simp) _, ?third⟩,
    hsegment (by simp) _, ?fourth⟩
  all_goals
    intro d hd d' hd' heq
    simp only [segment, along, List.mem_append, List.mem_map, List.mem_range] at hd hd'
    obtain ⟨t', ht', rfl⟩ := hd'
  case second =>
    obtain ⟨t, ht, rfl⟩ := hd
    simp only [Prod.mk.injEq] at heq
    omega
  case third =>
    obtain ⟨t, ht, rfl⟩ | ⟨t, ht, rfl⟩ := hd <;> simp only [Prod.mk.injEq] at heq <;> omega
  case fourth =>
    obtain (⟨t, ht, rfl⟩ | ⟨t, ht, rfl⟩) | ⟨t, ht, rfl⟩ := hd <;>
      simp only [Prod.mk.injEq] at heq <;> omega

/-- The cells within `n`, shell after shell. -/
def shells (n : ℕ) : List (ℤ × ℤ) := layers shell n

theorem radius_eq_zero_iff (d : ℤ × ℤ) : radius d = 0 ↔ d = (0, 0) := by
  obtain ⟨dx, dz⟩ := d
  have hx := abs_cases dx
  have hz := abs_cases dz
  simp only [radius, Prod.mk.injEq]
  omega

theorem mem_shells {n : ℕ} (hn : 1 ≤ n) {d : ℤ × ℤ} : d ∈ shells n ↔ radius d < n :=
  mem_layers (fun _ ↦ le_max_of_le_left (abs_nonneg _)) radius_eq_zero_iff mem_shell hn

theorem nodup_shells (n : ℕ) : (shells n).Nodup :=
  (pairwise_layers radius_eq_zero_iff mem_shell nodup_shell n).imp fun h ↦ h.2

/-! ## Segments -/

/-- The iterator at a cell of a segment. -/
def goTo (it : SpiralIterator2d) (cell dir : ℤ × ℤ) (length passed iteration : ℤ) :
    SpiralIterator2d :=
  { it with
    i := cell.1
    j := cell.2
    di := dir.1
    dj := dir.2
    segmentLength := length
    segmentPassed := passed
    iteration }

/-- The point of an offset. -/
def pointAt (it : SpiralIterator2d) (d : ℤ × ℤ) : WorldVec3 :=
  it.start.offset (.ofInt d.1) (.ofInt 0) (.ofInt d.2)

section Steps

variable {it : SpiralIterator2d} {cell dir : ℤ × ℤ} {length passed iteration : ℤ}

theorem turn_inside (hpassed : passed ≠ length) :
    (it.goTo cell dir length passed iteration).turn = it.goTo cell dir length passed iteration :=
  if_neg hpassed

theorem turn_last (hpassed : passed = length) :
    (it.goTo cell dir length passed iteration).turn = it.goTo cell (-dir.2, dir.1)
      (if dir.1 = 0 then length + 1 else length) 0 iteration :=
  if_pos hpassed

theorem next_goTo (hpoints : iteration < it.numberOfPoints) :
    (it.goTo cell dir length passed iteration).next =
      let moved := (it.goTo (cell.1 + dir.1, cell.2 + dir.2) dir length (passed + 1)
        iteration).turn
      (some (it.pointAt cell), { moved with iteration := moved.iteration + 1 }) := by
  have hgoes : ¬it.numberOfPoints ≤ iteration := by omega
  exact if_neg hgoes

theorem next_inside (hpoints : iteration < it.numberOfPoints) (hpassed : passed + 1 ≠ length) :
    (it.goTo cell dir length passed iteration).next = (some (it.pointAt cell),
      it.goTo (cell.1 + dir.1, cell.2 + dir.2) dir length (passed + 1) (iteration + 1)) := by
  rw [next_goTo hpoints, turn_inside hpassed]
  rfl

theorem next_turn (hpoints : iteration < it.numberOfPoints) (hpassed : passed + 1 = length) :
    (it.goTo cell dir length passed iteration).next = (some (it.pointAt cell),
      it.goTo (cell.1 + dir.1, cell.2 + dir.2) (-dir.2, dir.1)
        (if dir.1 = 0 then length + 1 else length) 0 (iteration + 1)) := by
  rw [next_goTo hpoints, turn_last hpassed]
  rfl

end Steps

section Segments

variable {it : SpiralIterator2d}

/-- A segment from its first cell to the first cell of the next one. -/
theorem runs_segment {cell dir : ℤ × ℤ} {length : ℕ} {iteration : ℤ} (hlength : 1 ≤ length)
    (hpoints : iteration + length ≤ it.numberOfPoints) :
    Runs next (it.goTo cell dir length 0 iteration) ((segment cell dir length).map it.pointAt)
      (it.goTo (along cell dir length) (-dir.2, dir.1)
        (if dir.1 = 0 then length + 1 else length) 0 (iteration + length)) := by
  have hstart : along cell dir 0 = cell := by simp [along]
  have hcell (t : ℕ) : ((along cell dir t).1 + dir.1, (along cell dir t).2 + dir.2) =
      along cell dir (t + 1) := by
    simp only [along]
    push_cast
    ring_nf
  have hrun : Runs next _ _ _ := Runs.leg
    (fun t ↦ if t = length then it.goTo (along cell dir length) (-dir.2, dir.1)
        (if dir.1 = 0 then length + 1 else length) 0 (iteration + length)
      else it.goTo (along cell dir t) dir length t (iteration + t))
    (fun t ↦ it.pointAt (along cell dir t)) length fun t ht ↦ by
      simp only [if_neg ht.ne]
      have hcount : iteration + t + 1 = iteration + ((t + 1 : ℕ) : ℤ) := by
        push_cast
        ring
      by_cases hlast : t + 1 = length
      · rw [if_pos hlast, next_turn (by omega) (by omega), hcell, hcount, hlast]
      · rw [if_neg hlast, next_inside (by omega) (by omega), hcell, hcount]
        rfl
  simp only [if_pos, if_neg (by omega : ¬0 = length), hstart, Nat.cast_zero, add_zero] at hrun
  rw [segment, List.map_map]
  exact hrun

/-- A segment, with where it ends in other words. -/
theorem runs_segment_to {cell dir cell' dir' : ℤ × ℤ} {length : ℕ}
    {length₁ length₂ iteration iteration' : ℤ} (hlength : 1 ≤ length)
    (hpoints : iteration' ≤ it.numberOfPoints) (hlength₁ : (length : ℤ) = length₁)
    (hiteration : iteration + length₁ = iteration') (hcell : along cell dir length = cell')
    (hdir : (-dir.2, dir.1) = dir')
    (hlength₂ : (if dir.1 = 0 then length₁ + 1 else length₁) = length₂) :
    Runs next (it.goTo cell dir length₁ 0 iteration) ((segment cell dir length).map it.pointAt)
      (it.goTo cell' dir' length₂ 0 iteration') := by
  subst hlength₁ hiteration hcell hdir hlength₂
  exact runs_segment hlength hpoints

/-- The iterator at the first cell of a shell. -/
def beforeShell (it : SpiralIterator2d) (k : ℕ) : SpiralIterator2d :=
  it.goTo (k + 1, -k) (0, 1) (2 * k + 1) 0 ((2 * k + 1) ^ 2)

/-- Once around a shell. -/
theorem runs_shell {k : ℕ} (hpoints : (2 * (k + 1 : ℤ) + 1) ^ 2 ≤ it.numberOfPoints) :
    Runs next (it.beforeShell k) ((shell k).map it.pointAt) (it.beforeShell (k + 1)) := by
  have hsquare : (2 * (k + 1 : ℤ) + 1) ^ 2 = (2 * k + 1) ^ 2 + (8 * k + 8) := by ring
  rw [beforeShell, beforeShell, shell, List.map_append, List.map_append, List.map_append]
  push_cast
  rw [hsquare] at hpoints ⊢
  have hup : Runs next (it.goTo (k + 1, -k) (0, 1) (2 * k + 1) 0 ((2 * k + 1) ^ 2))
      ((segment (k + 1, -k) (0, 1) (2 * k + 1)).map it.pointAt)
      (it.goTo (k + 1, k + 1) (-1, 0) (2 * k + 2) 0 ((2 * k + 1) ^ 2 + (2 * k + 1))) :=
    runs_segment_to (by omega) (by omega) (by push_cast; rfl) rfl
      (by simp only [along, Prod.mk.injEq]; omega) rfl (by rw [if_pos rfl]; ring)
  have hleft : Runs next
      (it.goTo (k + 1, k + 1) (-1, 0) (2 * k + 2) 0 ((2 * k + 1) ^ 2 + (2 * k + 1)))
      ((segment (k + 1, k + 1) (-1, 0) (2 * k + 2)).map it.pointAt)
      (it.goTo (-(k + 1), k + 1) (0, -1) (2 * k + 2) 0 ((2 * k + 1) ^ 2 + (4 * k + 3))) :=
    runs_segment_to (by omega) (by omega) (by push_cast; rfl) (by ring)
      (by simp only [along, Prod.mk.injEq]; omega) rfl rfl
  have hdown : Runs next
      (it.goTo (-(k + 1), k + 1) (0, -1) (2 * k + 2) 0 ((2 * k + 1) ^ 2 + (4 * k + 3)))
      ((segment (-(k + 1), k + 1) (0, -1) (2 * k + 2)).map it.pointAt)
      (it.goTo (-(k + 1), -(k + 1)) (1, 0) (2 * k + 3) 0 ((2 * k + 1) ^ 2 + (6 * k + 5))) :=
    runs_segment_to (by omega) (by omega) (by push_cast; rfl) (by ring)
      (by simp only [along, Prod.mk.injEq]; omega) rfl (by rw [if_pos rfl]; ring)
  have hright : Runs next
      (it.goTo (-(k + 1), -(k + 1)) (1, 0) (2 * k + 3) 0 ((2 * k + 1) ^ 2 + (6 * k + 5)))
      ((segment (-(k + 1), -(k + 1)) (1, 0) (2 * k + 3)).map it.pointAt)
      (it.goTo (k + 1 + 1, -(k + 1)) (0, 1) (2 * (k + 1) + 1) 0
        ((2 * k + 1) ^ 2 + (8 * k + 8))) :=
    runs_segment_to (by omega) (by omega) (by push_cast; rfl) (by ring)
      (by simp only [along, Prod.mk.injEq]; omega) rfl (by rw [if_neg (by norm_num)]; ring)
  simpa using ((hup.append hleft).append hdown).append hright

/-- Every step counts one point, and there is a step only while points are left. -/
theorem runs_iteration {s s' : SpiralIterator2d} {points : List WorldVec3}
    (h : Runs next s points s') :
    s'.numberOfPoints = s.numberOfPoints ∧ s'.iteration = s.iteration + points.length ∧
      (points ≠ [] → s'.iteration ≤ s.numberOfPoints) := by
  induction h with
  | stop s => simp
  | @step s s₁ s' a as hfirst _ ih =>
      have hsteps : s₁.numberOfPoints = s.numberOfPoints ∧ s₁.iteration = s.iteration + 1 ∧
          s.iteration < s.numberOfPoints := by
        rw [next] at hfirst
        split at hfirst
        · cases hfirst
        · rename_i hleft
          rw [turn] at hfirst
          split at hfirst <;> cases hfirst <;> exact ⟨rfl, rfl, by omega⟩
      obtain ⟨hsame, hcount, hleft⟩ := hsteps
      obtain ⟨hsame', hcount', hbound⟩ := ih
      refine ⟨hsame'.trans hsame, ?_, fun _ ↦ ?_⟩
      · rw [hcount', hcount, List.length_cons]
        push_cast
        ring
      · cases as with
        | nil =>
            rw [hcount', hcount]
            simp
            omega
        | cons _ _ => exact hsame ▸ hbound (by simp)

/-- A run to the end has as many points as the counter says. -/
theorem length_of_yieldsToEnd {points : List WorldVec3} (h : YieldsToEnd next it points)
    (hstart : it.iteration = 0) (hpoints : points ≠ []) :
    (points.length : ℤ) = it.numberOfPoints := by
  obtain ⟨last, hrun, hend⟩ := h
  obtain ⟨hsame, hcount, hbound⟩ := runs_iteration hrun
  have hbound := hbound hpoints
  have hpast : last.numberOfPoints ≤ last.iteration := by
    by_contra hleft
    rw [next, if_neg hleft] at hend
    cases hend
  omega

end Segments

/-! ## The whole run -/

/-- With the square of `2 n - 1` points to go the iterator yields `n` shells up to its end. -/
theorem yieldsToEnd_shells (start : WorldVec3) {n : ℕ} (hn : 1 ≤ n) :
    YieldsToEnd next { start, numberOfPoints := (2 * (n : ℤ) - 1) ^ 2 }
      ((shells n).map fun d ↦ start.offset (.ofInt d.1) (.ofInt 0) (.ofInt d.2)) := by
  let it : SpiralIterator2d := { start, numberOfPoints := (2 * (n : ℤ) - 1) ^ 2 }
  have hpositive : 0 < (2 * (n : ℤ) - 1) ^ 2 := by
    have : 0 < 2 * (n : ℤ) - 1 := by omega
    positivity
  have hstart : (it.goTo (0, 0) (1, 0) 1 0 0).next =
      (some (it.pointAt (0, 0)), it.beforeShell 0) := next_turn hpositive rfl
  have hlaps : Runs next _ _ _ :=
    Runs.laps it.beforeShell (fun k ↦ (shell k).map it.pointAt) (n - 1) fun k hk ↦ runs_shell <| by
      have hle : 2 * (k + 1 : ℤ) + 1 ≤ 2 * (n : ℤ) - 1 := by omega
      exact pow_le_pow_left₀ (by positivity) hle 2
  refine ⟨it.beforeShell (n - 1), ?_, ?_⟩
  · have hrun := Runs.step hstart hlaps
    rwa [← List.map_flatMap] at hrun
  · have hlast : (2 * (n : ℤ) - 1) ^ 2 ≤ (2 * ((n - 1 : ℕ) : ℤ) + 1) ^ 2 := by
      rw [Nat.cast_sub hn]
      exact le_of_eq (by push_cast; ring)
    have hend : (it.beforeShell (n - 1)).next = (none, it.beforeShell (n - 1)) := if_pos hlast
    rw [hend]

/-! ## The number of points -/

/-- The side of the square is exact up to `2 ^ 53`. -/
theorem side_value {maxDistance : FiniteDouble} {n : ℤ} (hmax : ⌊maxDistance.value⌋ = n)
    (hn : 1 ≤ n) (hside : 2 * n - 1 ≤ 2 ^ 53) :
    (side maxDistance).value = ((2 * n - 1 : ℤ) : ℚ) := by
  have habs : |2 * n - 1| ≤ 2 ^ 53 := abs_le.mpr ⟨by omega, hside⟩
  have hhalf : (FiniteDouble.ofRat (1 / 2)).value = 1 / 2 := by
    refine FiniteDouble.ofRat_value ?_
    have hround := roundDouble_of_le (m := 1) (e := -1) (by norm_num) (by norm_num)
    norm_num at hround ⊢
    exact hround
  have hsub : (maxDistance.floor.sub (.ofRat (1 / 2))).value = (2 * n - 1 : ℤ) * 2 ^ (-1 : ℤ) := by
    have hexact : ((n : ℚ) - 1 / 2) = (2 * n - 1 : ℤ) * 2 ^ (-1 : ℤ) := by
      push_cast
      ring
    rw [FiniteDouble.sub, FiniteDouble.floor_value, hmax, hhalf, hexact]
    exact roundDouble_of_le habs (by norm_num)
  have hdouble : ((2 * n - 1 : ℤ) * 2 ^ (-1 : ℤ) : ℚ) * ((2 : ℤ) : ℚ) = ((2 * n - 1 : ℤ) : ℚ) := by
    push_cast
    ring
  rw [side, FiniteDouble.mul, hsub, FiniteDouble.ofInt_value (by norm_num), hdouble]
  exact roundDouble_intCast habs

/-- The square of an integer that fits a word is rounded to a number that fits too. -/
theorem roundDouble_sq_lt {s : ℤ} (hs : 0 < s) (hword : s ^ 2 < 2 ^ 63) :
    roundDouble ((s ^ 2 : ℤ) : ℚ) < 2 ^ 63 := by
  have hpos : 0 < s ^ 2 := by positivity
  have hroot : s ≤ 3037000499 := by
    by_contra hbig
    nlinarith
  have hsquare : s ^ 2 ≤ 2 ^ 63 - 512 - 1 := by nlinarith
  have hplace : lastPlace ((s ^ 2 : ℤ) : ℚ) ≤ 10 := by
    refine lastPlace_le (by exact_mod_cast hpos.ne') ?_ (by norm_num)
    rw [abs_of_pos (by exact_mod_cast hpos)]
    exact_mod_cast hword
  have herror : roundDouble ((s ^ 2 : ℤ) : ℚ) - ((s ^ 2 : ℤ) : ℚ) ≤ 512 :=
    calc _ ≤ |roundDouble ((s ^ 2 : ℤ) : ℚ) - ((s ^ 2 : ℤ) : ℚ)| := le_abs_self _
      _ ≤ 2 ^ lastPlace ((s ^ 2 : ℤ) : ℚ) / 2 := abs_roundDouble_sub_le _
      _ ≤ 2 ^ (10 : ℤ) / 2 := by gcongr; norm_num
      _ = 512 := by norm_num
  have hcast : ((s ^ 2 : ℤ) : ℚ) ≤ 2 ^ 63 - 512 - 1 := by exact_mod_cast hsquare
  linarith

/-- The counter is the square of the side exactly when that square is a small double. -/
theorem numberOfPoints_eq_iff (undefinedCast : FiniteDouble → Int64) (start : WorldVec3)
    {maxDistance : FiniteDouble} {n : ℤ} (hmax : ⌊maxDistance.value⌋ = n) (hn : 1 ≤ n) :
    (create undefinedCast start maxDistance).numberOfPoints = (2 * n - 1) ^ 2 ↔
      (2 * n - 1) ^ 2 < 2 ^ 53 := by
  have hroot : 0 ≤ (2 * n - 1) ^ 2 := sq_nonneg _
  constructor
  · intro heq
    by_contra hbig
    have hword : (2 * n - 1) ^ 2 < 2 ^ 63 := heq ▸ FiniteDouble.toInt64_lt undefinedCast _
    have hside := side_value hmax hn (by nlinarith)
    have hbig' : (2 : ℚ) ^ 53 ≤ |(((2 * n - 1) ^ 2 : ℤ) : ℚ)| := by
      rw [abs_of_nonneg (by exact_mod_cast hroot)]
      exact_mod_cast not_lt.mp hbig
    -- The rounded square is even and the square of the side is odd.
    obtain ⟨k, hk⟩ := roundDouble_even hbig'
    have hsquare : ((side maxDistance).mul (side maxDistance)).floor.value =
        ((2 * k : ℤ) : ℚ) := by
      rw [FiniteDouble.floor_value, FiniteDouble.mul, hside, ← Int.cast_mul, ← pow_two]
      change ((⌊roundDouble _⌋ : ℤ) : ℚ) = _
      rw [hk, Int.floor_intCast]
    have hfits : 2 * k < 2 ^ 63 := by
      have hlt := roundDouble_sq_lt (by omega : 0 < 2 * n - 1) hword
      rw [hk] at hlt
      exact_mod_cast hlt
    have hnonneg : 0 ≤ 2 * k := by
      have hround : (0 : ℚ) ≤ roundDouble (((2 * n - 1) ^ 2 : ℤ) : ℚ) :=
        roundDouble_nonneg (by exact_mod_cast hroot)
      rw [hk] at hround
      exact_mod_cast hround
    have hcount : FiniteDouble.toInt64 undefinedCast _ = _ :=
      FiniteDouble.toInt64_of_int hsquare (by omega) hfits
    have hodd : (2 * n - 1) ^ 2 = 2 * (2 * (n * n - n)) + 1 := by ring
    have heven : (2 * n - 1) ^ 2 = 2 * k := heq.symm.trans hcount
    omega
  · intro hsmall
    have hside := side_value hmax hn (by nlinarith)
    have hsquare : ((side maxDistance).mul (side maxDistance)).value =
        (((2 * n - 1) ^ 2 : ℤ) : ℚ) := by
      rw [FiniteDouble.mul, hside, ← Int.cast_mul, ← pow_two]
      exact roundDouble_intCast (abs_le.mpr ⟨by omega, hsmall.le⟩)
    refine FiniteDouble.toInt64_of_int ?_ (by omega) (by omega)
    rw [FiniteDouble.floor_value, hsquare, Int.floor_intCast]

end SpiralIterator2d

/-- The points are the cells at Chebyshev distance below `n` from `(x, z)`, each once. -/
def VisitsSquare (points : List WorldVec3) (y : ℚ) (x z n : ℤ) : Prop :=
  ∃ cells : List (ℤ × ℤ), List.Forall₂ (WorldVec3.IsCell y) points cells ∧ cells.Nodup ∧
    (∀ c : ℤ × ℤ, c ∈ cells ↔ |c.1 - x| < n ∧ |c.2 - z| < n) ∧
    (cells.length : ℤ) = (2 * n - 1) ^ 2

namespace SpiralIterator2d

theorem visitsSquare {start : WorldVec3} {x z : ℤ} (hx : start.x.value = x)
    (hz : start.z.value = z) {n : ℕ} (hn : 1 ≤ n)
    (hnear : n = 1 ∨ |x| + (n - 1) ≤ 2 ^ 53 ∧ |z| + (n - 1) ≤ 2 ^ 53) :
    VisitsSquare ((shells n).map fun d ↦ start.offset (.ofInt d.1) (.ofInt 0) (.ofInt d.2))
      start.y.value x z n := by
  have hmem (c : ℤ × ℤ) : c ∈ cellsAround x z (shells n) ↔ |c.1 - x| < n ∧ |c.2 - z| < n := by
    rw [mem_cellsAround, mem_shells hn, radius, max_lt_iff]
  refine ⟨cellsAround x z (shells n), cellsAround_isCell fun d hd ↦ ?_,
    nodup_cellsAround (nodup_shells n), hmem, ?_⟩
  · obtain ⟨hd₁, hd₂⟩ : |d.1| < n ∧ |d.2| < n := max_lt_iff.mp ((mem_shells hn).mp hd)
    exact ⟨FiniteDouble.add_ofInt_near hx (hnear.imp (by omega) And.left) hd₁,
      congrArg FiniteDouble.value (FiniteDouble.add_ofInt_zero start.y),
      FiniteDouble.add_ofInt_near hz (hnear.imp (by omega) And.right) hd₂⟩
  · have hlength := length_of_yieldsToEnd (yieldsToEnd_shells start hn) rfl (by simp [shells, layers])
    rw [List.length_map] at hlength
    rw [cellsAround, List.length_map]
    exact hlength

end SpiralIterator2d

/-- Cells beyond `2 ^ 53` have no point, so no square that reaches there is visited. -/
theorem VisitsSquare.near {points : List WorldVec3} {y : ℚ} {x z n : ℤ}
    (h : VisitsSquare points y x z n) (hn : 1 < n) :
    |x| + (n - 1) ≤ 2 ^ 53 ∧ |z| + (n - 1) ≤ 2 ^ 53 := by
  obtain ⟨cells, hcells, -, hmem, -⟩ := h
  constructor
  · by_contra hfar
    obtain ⟨d, hd, hnot⟩ := FiniteDouble.exists_not_double_near (x := x) (r := n - 1) (by omega)
      (by omega)
    have hcell : (x + d, z) ∈ cells := (hmem _).mpr (by simp; omega)
    obtain ⟨point, hpoint, -⟩ := exists_isCell hcells hcell
    exact hnot _ hpoint
  · by_contra hfar
    obtain ⟨d, hd, hnot⟩ := FiniteDouble.exists_not_double_near (x := z) (r := n - 1) (by omega)
      (by omega)
    have hcell : (x, z + d) ∈ cells := (hmem _).mpr (by simp; omega)
    obtain ⟨point, -, -, hpoint⟩ := exists_isCell hcells hcell
    exact hnot _ hpoint

/-- A run that visits the square has as many points as the counter says. -/
theorem VisitsSquare.numberOfPoints_eq {it : SpiralIterator2d} {points : List WorldVec3} {y : ℚ}
    {x z n : ℤ} (h : VisitsSquare points y x z n) (hrun : YieldsToEnd SpiralIterator2d.next it points)
    (hstart : it.iteration = 0) (hn : 1 ≤ n) : it.numberOfPoints = (2 * n - 1) ^ 2 := by
  obtain ⟨cells, hcells, -, -, hlength⟩ := h
  have hpos : 0 < (2 * n - 1) ^ 2 := by
    have : 0 < 2 * n - 1 := by omega
    positivity
  have hcount : points.length = cells.length := hcells.length_eq
  have hpoints : points ≠ [] := by
    rintro rfl
    rw [← hcount] at hlength
    simp only [List.length_nil, Nat.cast_zero] at hlength
    omega
  rw [← SpiralIterator2d.length_of_yieldsToEnd hrun hstart hpoints, hcount, hlength]

/-- Up to its end the iterator visits the cells at Chebyshev distance below the
whole part `n` of the maximum distance, each once, exactly when doubles count
without gaps that far and hold the number of the cells. -/
theorem spiral_visits_square_iff (undefinedCast : FiniteDouble → Int64) (start : WorldVec3)
    (maxDistance : FiniteDouble) {x z n : ℤ} (hx : start.x.value = x) (hz : start.z.value = z)
    (hmax : ⌊maxDistance.value⌋ = n) (hn : 1 ≤ n) :
    (∃ points, YieldsToEnd SpiralIterator2d.next
      (SpiralIterator2d.create undefinedCast start maxDistance) points ∧
      VisitsSquare points start.y.value x z n) ↔
    (n = 1 ∨ |x| + (n - 1) ≤ 2 ^ 53 ∧ |z| + (n - 1) ≤ 2 ^ 53) ∧ (2 * n - 1) ^ 2 < 2 ^ 53 := by
  have hpoints := SpiralIterator2d.numberOfPoints_eq_iff undefinedCast start hmax hn
  constructor
  · rintro ⟨points, hrun, hvisits⟩
    refine ⟨?_, hpoints.mp (hvisits.numberOfPoints_eq hrun rfl hn)⟩
    by_cases hone : n = 1
    · exact .inl hone
    · exact .inr (hvisits.near (by omega))
  · rintro ⟨hnear, hsquare⟩
    obtain ⟨k, rfl⟩ := Int.eq_ofNat_of_zero_le (by omega : 0 ≤ n)
    have hk : 1 ≤ k := by omega
    have hcreate : SpiralIterator2d.create undefinedCast start maxDistance =
        { start, numberOfPoints := (2 * (k : ℤ) - 1) ^ 2 } := by
      rw [← hpoints.mpr hsquare]
      rfl
    refine ⟨_, ?_, SpiralIterator2d.visitsSquare hx hz hk (by simpa using hnear)⟩
    rw [hcreate]
    exact SpiralIterator2d.yieldsToEnd_shells start hk

theorem spiral_visits_square_three :
    ∃ points, YieldsToEnd SpiralIterator2d.next
      (SpiralIterator2d.create (fun _ ↦ 0) ⟨.ofInt 10, .ofInt 5, .ofInt (-3)⟩ (.ofInt 3)) points ∧
      VisitsSquare points (FiniteDouble.ofInt 5).value 10 (-3) 3 :=
  (spiral_visits_square_iff (fun _ ↦ 0) ⟨.ofInt 10, .ofInt 5, .ofInt (-3)⟩ (.ofInt 3)
    (FiniteDouble.ofInt_value (by norm_num)) (FiniteDouble.ofInt_value (by norm_num))
    (by rw [FiniteDouble.ofInt_value (by norm_num), Int.floor_intCast]) (by norm_num)).mpr
    ⟨.inr (by norm_num), by norm_num⟩

/-- Behind `2 ^ 53` the cells with an odd coordinate are not visited, and a counter
that a double does not hold ends the run at another number of cells. -/
theorem spiral_misses_cells :
    (¬∃ points, YieldsToEnd SpiralIterator2d.next
      (SpiralIterator2d.create (fun _ ↦ 0) ⟨.ofInt (2 ^ 53), .ofInt 0, .ofInt 0⟩ (.ofInt 2))
        points ∧
      VisitsSquare points (FiniteDouble.ofInt 0).value (2 ^ 53) 0 2) ∧
    ¬∃ points, YieldsToEnd SpiralIterator2d.next
      (SpiralIterator2d.create (fun _ ↦ 0) ⟨.ofInt 0, .ofInt 0, .ofInt 0⟩ (.ofInt 47453134))
        points ∧
      VisitsSquare points (FiniteDouble.ofInt 0).value 0 0 47453134 := by
  constructor
  · rintro ⟨points, -, hvisits⟩
    have hnear := (hvisits.near (by norm_num)).1
    norm_num at hnear
  · rintro ⟨points, hrun, hvisits⟩
    have hmax : ⌊(FiniteDouble.ofInt 47453134).value⌋ = 47453134 := by
      rw [FiniteDouble.ofInt_value (by norm_num), Int.floor_intCast]
    have hsquare := (SpiralIterator2d.numberOfPoints_eq_iff (fun _ ↦ 0)
      ⟨.ofInt 0, .ofInt 0, .ofInt 0⟩ hmax (by norm_num)).mp
      (hvisits.numberOfPoints_eq hrun rfl (by norm_num))
    norm_num at hsquare

end BedrockProtocol
