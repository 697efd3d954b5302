import BedrockProtocol.World.WorldIterators
import Mathlib.Tactic.IntervalCases

/-!
# The order of the octahedron iterator

The iterator walks around octahedra of growing distance, one octant after the
other.  Neighbouring octants share the cells with a zero coordinate, so such a
cell is yielded twice for each zero; the start itself is not yielded.  The
distance is compared before the next octahedron is entered, so one cell behind
the last octahedron comes out as well.
-/

namespace BedrockProtocol

namespace OctahedronIterator

/-! ## Octants -/

/-- The signs of an octant. -/
def octant (i : ℕ) : ℤ × ℤ × ℤ :=
  (if i < 4 then -1 else 1, if i % 4 < 2 then -1 else 1, if i % 2 = 0 then -1 else 1)

/-- The cell of two counters in an octant of the octahedron at distance `a`. -/
def cell (a : ℕ) (signs : ℤ × ℤ × ℤ) (left right : ℕ) : ℤ × ℤ × ℤ :=
  (signs.1 * right, signs.2.1 * (a - left), signs.2.2 * (left - right))

/-- The cells with one value of `left`, from `right = left` down. -/
def row (a : ℕ) (signs : ℤ × ℤ × ℤ) (left : ℕ) : List (ℤ × ℤ × ℤ) :=
  (List.range (left + 1)).map fun j ↦ cell a signs left (left - j)

/-- An octant, from `left = a` down. -/
def octantCells (a : ℕ) (signs : ℤ × ℤ × ℤ) : List (ℤ × ℤ × ℤ) :=
  (List.range (a + 1)).flatMap fun i ↦ row a signs (a - i)

/-- The octahedron at distance `a`. -/
def octahedron (a : ℕ) : List (ℤ × ℤ × ℤ) :=
  (List.range 8).flatMap fun i ↦ octantCells a (octant i)

/-- The octahedra at the distances from 1 to `n`. -/
def octahedra (n : ℕ) : List (ℤ × ℤ × ℤ) :=
  (List.range n).flatMap fun k ↦ octahedron (k + 1)

/-- The distance of an offset. -/
def distance (d : ℤ × ℤ × ℤ) : ℤ := |d.1| + |d.2.1| + |d.2.2|

/-- How many of the eight octants have the offset. -/
def multiplicity (d : ℤ × ℤ × ℤ) : ℕ :=
  (if d.1 = 0 then 2 else 1) * (if d.2.1 = 0 then 2 else 1) * (if d.2.2 = 0 then 2 else 1)

/-- A sign and a coordinate that is on its side. -/
def OnSide (sign c : ℤ) : Prop := 0 ≤ sign * c

instance (sign c : ℤ) : Decidable (OnSide sign c) := inferInstanceAs (Decidable (_ ≤ _))

section Signs

variable {sign : ℤ}

theorem eq_of_sign_mul_eq (hsign : sign = 1 ∨ sign = -1) {a b : ℤ} (h : sign * a = sign * b) :
    a = b := by
  rcases hsign with rfl | rfl <;> omega

theorem onSide_mul (hsign : sign = 1 ∨ sign = -1) {a : ℤ} (ha : 0 ≤ a) :
    OnSide sign (sign * a) ∧ |sign * a| = a := by
  rcases hsign with rfl | rfl
  · simpa [OnSide] using ha
  · simpa [OnSide] using ha

theorem abs_of_onSide (hsign : sign = 1 ∨ sign = -1) {c : ℤ} (h : OnSide sign c) :
    |c| = sign * c ∧ sign * |c| = c := by
  rcases hsign with rfl | rfl
  · rw [OnSide, one_mul] at h
    rw [abs_of_nonneg h, one_mul]
    exact ⟨rfl, rfl⟩
  · rw [OnSide] at h
    rw [abs_of_nonpos (by omega)]
    omega

end Signs

/-- Three signs. -/
def Signs (signs : ℤ × ℤ × ℤ) : Prop :=
  (signs.1 = 1 ∨ signs.1 = -1) ∧ (signs.2.1 = 1 ∨ signs.2.1 = -1) ∧
    (signs.2.2 = 1 ∨ signs.2.2 = -1)

theorem signs_octant (i : ℕ) : Signs (octant i) := by
  simp only [Signs, octant]
  split_ifs <;> simp

section Octant

variable {a : ℕ} {signs : ℤ × ℤ × ℤ}

theorem cell_inj (hsigns : Signs signs) {left right left' right' : ℕ}
    (h : cell a signs left right = cell a signs left' right') :
    left = left' ∧ right = right' := by
  simp only [cell, Prod.mk.injEq] at h
  have hright := eq_of_sign_mul_eq hsigns.1 h.1
  have hleft := eq_of_sign_mul_eq hsigns.2.1 h.2.1
  omega

theorem nodup_octantCells (hsigns : Signs signs) : (octantCells a signs).Nodup := by
  rw [octantCells, List.nodup_flatMap]
  constructor
  · intro i hi
    refine (List.nodup_range.map_on fun j hj j' hj' h ↦ ?_)
    have hright := (cell_inj hsigns h).2
    rw [List.mem_range] at hj hj'
    omega
  · refine List.nodup_range.imp_of_mem fun {i i'} hi hi' hne c hc hc' ↦ ?_
    obtain ⟨j, -, rfl⟩ := List.mem_map.mp hc
    obtain ⟨j', -, h⟩ := List.mem_map.mp hc'
    have hleft := (cell_inj hsigns h).1
    rw [List.mem_range] at hi hi'
    omega

/-- An octant has the offsets at its distance that are on its sides. -/
theorem mem_octantCells (hsigns : Signs signs) {d : ℤ × ℤ × ℤ} :
    d ∈ octantCells a signs ↔
      distance d = a ∧ OnSide signs.1 d.1 ∧ OnSide signs.2.1 d.2.1 ∧ OnSide signs.2.2 d.2.2 := by
  obtain ⟨hx, hy, hz⟩ := hsigns
  simp only [octantCells, row, List.mem_flatMap, List.mem_map, List.mem_range]
  constructor
  · rintro ⟨i, hi, j, hj, rfl⟩
    obtain ⟨hxSide, hxAbs⟩ := onSide_mul hx (a := ((a - i - j : ℕ) : ℤ)) (by omega)
    obtain ⟨hySide, hyAbs⟩ := onSide_mul hy (a := (a : ℤ) - ((a - i : ℕ) : ℤ)) (by omega)
    obtain ⟨hzSide, hzAbs⟩ :=
      onSide_mul hz (a := ((a - i : ℕ) : ℤ) - ((a - i - j : ℕ) : ℤ)) (by omega)
    refine ⟨?_, hxSide, hySide, hzSide⟩
    simp only [distance, cell, hxAbs, hyAbs, hzAbs]
    ring
  · rintro ⟨hdistance, hxSide, hySide, hzSide⟩
    obtain ⟨hxAbs, hxSign⟩ := abs_of_onSide hx hxSide
    obtain ⟨hyAbs, hySign⟩ := abs_of_onSide hy hySide
    obtain ⟨hzAbs, hzSign⟩ := abs_of_onSide hz hzSide
    have hx' : 0 ≤ |d.1| := abs_nonneg _
    have hy' : 0 ≤ |d.2.1| := abs_nonneg _
    have hz' : 0 ≤ |d.2.2| := abs_nonneg _
    rw [distance] at hdistance
    refine ⟨|d.2.1|.toNat, by omega, |d.2.2|.toNat, by omega, ?_⟩
    have hleft : ((a - |d.2.1|.toNat : ℕ) : ℤ) = a - |d.2.1| := by omega
    have hright : ((a - |d.2.1|.toNat - |d.2.2|.toNat : ℕ) : ℤ) = |d.1| := by omega
    simp only [cell, hleft, hright]
    refine Prod.ext hxSign (Prod.ext ?_ ?_)
    · rw [sub_sub_cancel, hySign]
    · rw [show (a : ℤ) - |d.2.1| - |d.1| = |d.2.2| by omega, hzSign]

end Octant

/-- One if the coordinate is on the side of the sign. -/
def sideCount (sign c : ℤ) : ℕ := if OnSide sign c then 1 else 0

/-- Both sides have a zero, one side has another number. -/
theorem sideCount_add (c : ℤ) : sideCount (-1) c + sideCount 1 c = if c = 0 then 2 else 1 := by
  rw [sideCount, sideCount]
  by_cases hneg : OnSide (-1) c <;> by_cases hpos : OnSide 1 c <;>
    simp only [hneg, hpos, if_true, if_false] <;> rw [OnSide] at hneg hpos
  · rw [if_pos (by omega)]
  · rw [if_neg (by omega)]
  · rw [if_neg (by omega)]
  · omega

theorem count_octantCells {a : ℕ} {signs : ℤ × ℤ × ℤ} (hsigns : Signs signs) (d : ℤ × ℤ × ℤ) :
    (octantCells a signs).count d = if distance d = a then
      sideCount signs.1 d.1 * sideCount signs.2.1 d.2.1 * sideCount signs.2.2 d.2.2 else 0 := by
  rw [(nodup_octantCells hsigns).count]
  simp only [mem_octantCells hsigns, sideCount]
  split_ifs <;> simp_all

theorem count_octahedron (a : ℕ) (d : ℤ × ℤ × ℤ) :
    (octahedron a).count d = if distance d = a then multiplicity d else 0 := by
  rw [octahedron, List.count_flatMap]
  simp only [Function.comp_def, count_octantCells (signs_octant _)]
  by_cases hd : distance d = a
  · simp only [hd, if_true, multiplicity, ← sideCount_add, List.range_succ, List.range_zero,
      List.nil_append, List.cons_append, List.map_cons, List.map_nil, List.sum_cons, List.sum_nil]
    simp only [octant, Nat.reduceLT, Nat.reduceMod, if_true, if_false, Nat.reduceEqDiff]
    norm_num
    ring
  · simp [hd]

theorem count_octahedra (n : ℕ) (d : ℤ × ℤ × ℤ) :
    (octahedra n).count d = if 1 ≤ distance d ∧ distance d ≤ n then multiplicity d else 0 := by
  induction n with
  | zero =>
      rw [if_neg (by push_cast; omega)]
      rfl
  | succ n ih =>
      rw [octahedra, List.range_succ, List.flatMap_append, List.flatMap_singleton, List.count_append,
        ← octahedra, ih, count_octahedron]
      push_cast
      split_ifs <;> omega

theorem distance_of_mem_octahedron {a : ℕ} {d : ℤ × ℤ × ℤ} (h : d ∈ octahedron a) :
    distance d = a := by
  rw [← List.count_pos_iff, count_octahedron] at h
  by_contra hd
  rw [if_neg hd] at h
  exact h.false

/-- The nearer octahedra come first. -/
theorem pairwise_octahedra (n : ℕ) :
    (octahedra n).Pairwise fun d d' ↦ distance d ≤ distance d' := by
  rw [octahedra, List.pairwise_flatMap]
  constructor
  · intro k _
    refine List.pairwise_of_forall_mem_list fun d hd d' hd' ↦ ?_
    rw [distance_of_mem_octahedron hd, distance_of_mem_octahedron hd']
  · refine List.pairwise_lt_range.imp fun {k k'} hlt d hd d' hd' ↦ ?_
    rw [distance_of_mem_octahedron hd, distance_of_mem_octahedron hd']
    push_cast
    omega

/-! ## Steps -/

/-- The iterator at a cell. -/
def goTo (it : OctahedronIterator) (a : ℕ) (signs : ℤ × ℤ × ℤ) (left right : ℕ) :
    OctahedronIterator :=
  { it with apothem := a, x := signs.1, y := signs.2.1, z := signs.2.2, left, right }

/-- The point of an offset. -/
def pointAt (it : OctahedronIterator) (d : ℤ × ℤ × ℤ) : WorldVec3 :=
  it.start.offset (.ofInt d.1) (.ofInt d.2.1) (.ofInt d.2.2)

section Steps

variable {it s : OctahedronIterator} {a left right : ℕ} {signs : ℤ × ℤ × ℤ}

/-- Not yet beyond the maximum distance. -/
def Within (it : OctahedronIterator) (a : ℕ) : Prop :=
  ¬it.maxDistance.value < (FiniteDouble.ofInt a).value

theorem point_goTo (hsigns : Signs signs) (hleft : left ≤ a) :
    (it.goTo a signs left right).point = it.pointAt (cell a signs left right) := by
  obtain ⟨-, hx⟩ := onSide_mul hsigns.1 (a := (right : ℤ)) (by omega)
  obtain ⟨-, hy⟩ := onSide_mul hsigns.2.1 (a := (a : ℤ) - left) (by omega)
  have hz : (a : ℤ) - (|signs.1 * right| + |signs.2.1 * (a - left)|) = left - right := by
    rw [hx, hy]
    ring
  change it.start.offset _ _ (.ofInt (signs.2.2 * _)) = _
  rw [goTo, hz]
  rfl

/-- A step to a cell. -/
theorem next_eq (hwithin : ¬s.maxDistance.value < (FiniteDouble.ofInt s.apothem).value)
    (hadvance : s.advance = it.goTo a signs left right) (hsigns : Signs signs) (hleft : left ≤ a) :
    s.next = (some (it.pointAt (cell a signs left right)), it.goTo a signs left right) := by
  rw [next, if_neg hwithin, hadvance, point_goTo hsigns hleft]

theorem advance_row : (it.goTo a signs left (right + 1)).advance = it.goTo a signs left right := by
  have hright : ((right + 1 : ℕ) : ℤ) - 1 = right := by push_cast; ring
  rw [advance, goTo]
  simp only [hright]
  rw [if_pos (by omega), goTo]

theorem advance_left : (it.goTo a signs (left + 1) 0).advance = it.goTo a signs left left := by
  have hleft : ((left + 1 : ℕ) : ℤ) - 1 = left := by push_cast; ring
  rw [advance, goTo]
  simp only [hleft]
  rw [if_neg (by simp), if_pos (by omega), goTo]

theorem advance_octant {i : ℕ} (hi : i < 7) :
    (it.goTo a (octant i) 0 0).advance = it.goTo a (octant (i + 1)) a a := by
  interval_cases i <;> rfl

theorem advance_apothem :
    (it.goTo a (octant 7) 0 0).advance = it.goTo (a + 1) (octant 0) (a + 1) (a + 1) := rfl

/-! ## Runs -/

theorem runs_row (hsigns : Signs signs) (hwithin : it.Within a) (hleft : left ≤ a)
    (hfirst : s.next = (some (it.pointAt (cell a signs left left)), it.goTo a signs left left)) :
    Runs next s ((row a signs left).map it.pointAt) (it.goTo a signs left 0) := by
  have hrest : Runs next (it.goTo a signs left (left - 0)) _ (it.goTo a signs left (left - left)) :=
    Runs.leg (fun j ↦ it.goTo a signs left (left - j))
      (fun j ↦ it.pointAt (cell a signs left (left - (j + 1)))) left fun j hj ↦ by
        refine next_eq hwithin ?_ hsigns hleft
        have hstep := @advance_row it a left (left - (j + 1)) signs
        rwa [show left - (j + 1) + 1 = left - j by omega] at hstep
  rw [Nat.sub_zero, Nat.sub_self] at hrest
  have hrow : (row a signs left).map it.pointAt = it.pointAt (cell a signs left left) ::
      (List.range left).map fun j ↦ it.pointAt (cell a signs left (left - (j + 1))) := by
    rw [row, List.range_succ_eq_map, List.map_cons, List.map_map, List.map_cons, List.map_map]
    simp only [Nat.sub_zero]
    rfl
  rw [hrow]
  exact .step hfirst hrest

theorem runs_octant (hsigns : Signs signs) (hwithin : it.Within a)
    (hfirst : s.next = (some (it.pointAt (cell a signs a a)), it.goTo a signs a a)) :
    Runs next s ((octantCells a signs).map it.pointAt) (it.goTo a signs 0 0) := by
  have hlaps : Runs next s _ (it.goTo a signs (a + 1 - (a + 1)) 0) :=
    Runs.laps (fun i ↦ if i = 0 then s else it.goTo a signs (a + 1 - i) 0)
      (fun i ↦ (row a signs (a - i)).map it.pointAt) (a + 1) fun i hi ↦ by
        rw [if_neg (Nat.succ_ne_zero i), show a + 1 - (i + 1) = a - i by omega]
        refine runs_row hsigns hwithin (Nat.sub_le a i) ?_
        split
        · rename_i hzero
          rw [hzero]
          exact hfirst
        · refine next_eq hwithin ?_ hsigns (Nat.sub_le a i)
          have hstep := @advance_left it a (a - i) signs
          rwa [show a - i + 1 = a + 1 - i by omega] at hstep
  rwa [Nat.sub_self, ← List.map_flatMap] at hlaps

/-- The eight octants of an octahedron. -/
theorem runs_octahedron (hwithin : it.Within a)
    (hfirst : s.next = (some (it.pointAt (cell a (octant 0) a a)), it.goTo a (octant 0) a a)) :
    Runs next s ((octahedron a).map it.pointAt) (it.goTo a (octant 7) 0 0) := by
  have hlaps : Runs next s _ (it.goTo a (octant 7) 0 0) :=
    Runs.laps (fun i ↦ if i = 0 then s else it.goTo a (octant (i - 1)) 0 0)
      (fun i ↦ (octantCells a (octant i)).map it.pointAt) 8 fun i hi ↦ by
        rw [if_neg (Nat.succ_ne_zero i), Nat.add_sub_cancel]
        refine runs_octant (signs_octant i) hwithin ?_
        split
        · rename_i hzero
          rw [hzero]
          exact hfirst
        · refine next_eq hwithin ?_ (signs_octant i) le_rfl
          have hstep := @advance_octant it a (i - 1) (by omega)
          rwa [Nat.sub_add_cancel (by omega)] at hstep
  rwa [← List.map_flatMap] at hlaps

/-- The iterator yields the octahedra within the maximum distance. -/
theorem runs_octahedra {n : ℕ} (hwithin : ∀ a ≤ n, it.Within a)
    (hfirst : s.next = (some (it.pointAt (cell 1 (octant 0) 1 1)), it.goTo 1 (octant 0) 1 1)) :
    Runs next s ((octahedra n).map it.pointAt)
      (if n = 0 then s else it.goTo n (octant 7) 0 0) := by
  have hlaps := Runs.laps (fun k ↦ if k = 0 then s else it.goTo k (octant 7) 0 0)
    (fun k ↦ (octahedron (k + 1)).map it.pointAt) n fun k hk ↦ by
      rw [if_neg (Nat.succ_ne_zero k)]
      refine runs_octahedron (hwithin (k + 1) hk) ?_
      split
      · rename_i hzero
        rw [hzero]
        exact hfirst
      · exact next_eq (hwithin k hk.le) advance_apothem (signs_octant 0) le_rfl
  rwa [if_pos rfl, ← List.map_flatMap] at hlaps

end Steps

/-! ## The whole run -/

/-- Whole numbers beyond the maximum distance end the run. -/
theorem within_iff {it : OctahedronIterator} {n : ℤ} (hmax : ⌊it.maxDistance.value⌋ = n) {a : ℕ}
    (ha : (a : ℤ) ≤ 2 ^ 53) : it.Within a ↔ a ≤ n := by
  have habs : |(a : ℤ)| ≤ 2 ^ 53 := by rwa [Nat.abs_cast]
  rw [Within, FiniteDouble.ofInt_value habs, not_lt, ← hmax, Int.le_floor]

/-- The octahedra within the maximum distance, and the first cell of the next one. -/
theorem yieldsToEnd_octahedra {it : OctahedronIterator} {n : ℕ}
    (hmax : ⌊it.maxDistance.value⌋ = n) (hn : 1 ≤ n) (hn' : n < 2 ^ 52)
    (hstart : it = it.goTo 1 (octant 0) 1 2) :
    YieldsToEnd next it ((octahedra n ++ [(-((n : ℤ) + 1), 0, 0)]).map it.pointAt) := by
  have hwithin (a : ℕ) (ha : a ≤ n) : it.Within a :=
    (within_iff hmax (by omega)).mpr (by exact_mod_cast ha)
  have hfirst : it.next = (some (it.pointAt (cell 1 (octant 0) 1 1)), it.goTo 1 (octant 0) 1 1) := by
    have hadvance := @advance_row it 1 1 1 (octant 0)
    rw [← hstart] at hadvance
    refine next_eq ?_ hadvance (signs_octant 0) le_rfl
    have happly := hwithin 1 hn
    rw [hstart]
    exact happly
  have hrun := runs_octahedra hwithin hfirst
  rw [if_neg (by omega)] at hrun
  have hlast : (it.goTo n (octant 7) 0 0).next =
      (some (it.pointAt (-((n : ℤ) + 1), 0, 0)), it.goTo (n + 1) (octant 0) (n + 1) (n + 1)) := by
    have hcell : cell (n + 1) (octant 0) (n + 1) (n + 1) = (-((n : ℤ) + 1), 0, 0) := by
      simp [cell, octant]
    have hstep : (it.goTo n (octant 7) 0 0).next = _ :=
      next_eq (hwithin n le_rfl) advance_apothem (signs_octant 0) le_rfl
    rw [hstep, hcell]
  refine ⟨it.goTo (n + 1) (octant 0) (n + 1) (n + 1), ?_, ?_⟩
  · rw [List.map_append]
    exact hrun.append (.single hlast)
  · have hbeyond : ¬it.Within (n + 1) := by
      rw [within_iff hmax (by push_cast; omega)]
      push_cast
      omega
    rw [Within, not_not] at hbeyond
    rw [next, if_pos (by exact_mod_cast hbeyond)]

/-- With a maximum distance below 1 nothing is yielded. -/
theorem yieldsToEnd_nil {it : OctahedronIterator} {n : ℤ} (hmax : ⌊it.maxDistance.value⌋ = n)
    (hn : n < 1) (hstart : it.apothem = 1) : YieldsToEnd next it [] := by
  have hbeyond : ¬it.Within 1 := by
    rw [within_iff hmax (by norm_num)]
    push_cast
    omega
  rw [Within, not_not] at hbeyond
  refine ⟨it, .stop it, ?_⟩
  rw [next, hstart, if_pos (by exact_mod_cast hbeyond)]

end OctahedronIterator

/-- The point of a block. -/
def WorldVec3.IsBlock (point : WorldVec3) (block : ℤ × ℤ × ℤ) : Prop :=
  point.x.value = block.1 ∧ point.y.value = block.2.1 ∧ point.z.value = block.2.2

/-- The points are the blocks within distance `n` of `(x, y, z)` without that block, the nearer
ones first, each as often as two to the number of its zero offsets, and one block beyond. -/
def VisitsOctahedra (points : List WorldVec3) (x y z n : ℤ) : Prop :=
  ∃ blocks : List (ℤ × ℤ × ℤ),
    List.Forall₂ WorldVec3.IsBlock points
      (blocks ++ if 1 ≤ n then [(x - (n + 1), y, z)] else []) ∧
    (∀ b : ℤ × ℤ × ℤ, blocks.count b =
      if 1 ≤ |b.1 - x| + |b.2.1 - y| + |b.2.2 - z| ∧ |b.1 - x| + |b.2.1 - y| + |b.2.2 - z| ≤ n then
        (if b.1 = x then 2 else 1) * (if b.2.1 = y then 2 else 1) * (if b.2.2 = z then 2 else 1)
      else 0) ∧
    blocks.Pairwise fun b b' ↦ |b.1 - x| + |b.2.1 - y| + |b.2.2 - z| ≤
      |b'.1 - x| + |b'.2.1 - y| + |b'.2.2 - z|

namespace OctahedronIterator

theorem visitsOctahedra {it : OctahedronIterator} {x y z : ℤ} (hstart : it.start.IsBlock (x, y, z))
    (hrange : |x| ≤ 2 ^ 31 ∧ |y| ≤ 2 ^ 31 ∧ |z| ≤ 2 ^ 31) {n : ℕ} (hn : 1 ≤ n) (hn' : n < 2 ^ 52) :
    VisitsOctahedra ((octahedra n ++ [(-((n : ℤ) + 1), 0, 0)]).map it.pointAt) x y z n := by
  obtain ⟨hx, hy, hz⟩ := hstart
  let move (d : ℤ × ℤ × ℤ) : ℤ × ℤ × ℤ := (x + d.1, y + d.2.1, z + d.2.2)
  have hmove : Function.Injective move := fun d d' h ↦ by
    simp only [move, Prod.mk.injEq, add_right_inj] at h
    exact Prod.ext h.1 (Prod.ext h.2.1 h.2.2)
  have hblock (d : ℤ × ℤ × ℤ) (hd : distance d ≤ n + 1) : (it.pointAt d).IsBlock (move d) := by
    have hx' : 0 ≤ |d.1| := abs_nonneg _
    have hy' : 0 ≤ |d.2.1| := abs_nonneg _
    have hz' : 0 ≤ |d.2.2| := abs_nonneg _
    have hmoved {a : FiniteDouble} {c e : ℤ} (ha : a.value = c) (hc : |c| ≤ 2 ^ 31)
        (he : |e| ≤ n + 1) : (a.add (.ofInt e)).value = ((c + e : ℤ) : ℚ) := by
      have hsum := abs_add_le c e
      exact FiniteDouble.add_ofInt_value ha (by omega) (by omega)
    rw [distance] at hd
    exact ⟨hmoved hx hrange.1 (by omega), hmoved hy hrange.2.1 (by omega),
      hmoved hz hrange.2.2 (by omega)⟩
  have hnear (d : ℤ × ℤ × ℤ) (hd : d ∈ octahedra n) : distance d ≤ n := by
    rw [← List.count_pos_iff, count_octahedra] at hd
    by_contra hfar
    rw [if_neg fun h ↦ hfar h.2] at hd
    exact hd.false
  refine ⟨(octahedra n).map move, ?_, ?_, ?_⟩
  · have hall : List.Forall₂ WorldVec3.IsBlock
        ((octahedra n ++ [(-((n : ℤ) + 1), 0, 0)]).map it.pointAt)
        ((octahedra n ++ [(-((n : ℤ) + 1), 0, 0)]).map move) := by
      rw [List.forall₂_map_left_iff, List.forall₂_map_right_iff, List.forall₂_same]
      intro d hd
      refine hblock d ?_
      obtain hd | hd := List.mem_append.mp hd
      · have hle := hnear d hd
        omega
      · obtain rfl := List.mem_singleton.mp hd
        simp only [distance, abs_neg, abs_zero]
        rw [abs_of_nonneg (by omega)]
        omega
    have hlast : move (-((n : ℤ) + 1), 0, 0) = (x - (n + 1), y, z) := by
      simp only [move, add_zero]
      rfl
    rw [if_pos (by omega), ← hlast]
    simpa using hall
  · intro b
    obtain ⟨d, rfl⟩ : ∃ d, move d = b :=
      ⟨(b.1 - x, b.2.1 - y, b.2.2 - z), by simp [move]⟩
    rw [List.count_map_of_injective _ _ hmove, count_octahedra]
    simp only [move, distance, multiplicity, add_sub_cancel_left, add_eq_left]
    rfl
  · rw [List.pairwise_map]
    refine (pairwise_octahedra n).imp fun {d d'} h ↦ ?_
    simpa only [move, add_sub_cancel_left, distance] using h

end OctahedronIterator

/-- Up to its end marker the iterator visits the octahedra around the block of the start
within the maximum distance, and one block beyond. -/
theorem octahedron_visits_octahedra (undefinedCast : FiniteDouble → Int32) (start : WorldVec3)
    (maxDistance : FiniteDouble) {x y z n : ℤ} (hx : ⌊start.x.value⌋ = x)
    (hy : ⌊start.y.value⌋ = y) (hz : ⌊start.z.value⌋ = z)
    (hrange : InSigned 32 x ∧ InSigned 32 y ∧ InSigned 32 z) (hmax : ⌊maxDistance.value⌋ = n)
    (hn : n < 2 ^ 52) :
    ∃ points, YieldsToEnd OctahedronIterator.next
      (OctahedronIterator.create undefinedCast start maxDistance) points ∧
      VisitsOctahedra points x y z n := by
  have hfloored {a : FiniteDouble} {c : ℤ} (hc : ⌊a.value⌋ = c) (hc' : InSigned 32 c) :
      (FiniteDouble.ofInt (a.floor.toInt32 undefinedCast)).value = c := by
    have hcast : a.floor.toInt32 undefinedCast = c :=
      FiniteDouble.toInt32_of_int (by rw [FiniteDouble.floor_value, hc]) hc'
    obtain ⟨hlow, hhigh⟩ := hc'
    rw [hcast]
    exact FiniteDouble.ofInt_value (abs_le.mpr ⟨by omega, by omega⟩)
  have hbound {c : ℤ} (hc : InSigned 32 c) : |c| ≤ 2 ^ 31 := by
    obtain ⟨hlow, hhigh⟩ := hc
    exact abs_le.mpr ⟨by omega, by omega⟩
  obtain ⟨hx', hy', hz'⟩ := hrange
  by_cases hone : 1 ≤ n
  · obtain ⟨k, rfl⟩ := Int.eq_ofNat_of_zero_le (by omega : 0 ≤ n)
    exact ⟨_, OctahedronIterator.yieldsToEnd_octahedra hmax (by omega) (by omega) rfl,
      OctahedronIterator.visitsOctahedra ⟨hfloored hx hx', hfloored hy hy', hfloored hz hz'⟩
        ⟨hbound hx', hbound hy', hbound hz'⟩ (by omega) (by omega)⟩
  · refine ⟨[], OctahedronIterator.yieldsToEnd_nil hmax (by omega) rfl, [], ?_, fun b ↦ ?_, .nil⟩
    · rw [if_neg hone]
      exact .nil
    · rw [if_neg (by omega)]
      rfl

theorem octahedron_visits_two :
    ∃ points, YieldsToEnd OctahedronIterator.next
      (OctahedronIterator.create (fun _ ↦ 0) ⟨.ofInt 1, .ofInt (-3), .ofInt 3⟩ (.ofInt 2)) points ∧
      VisitsOctahedra points 1 (-3) 3 2 :=
  octahedron_visits_octahedra (fun _ ↦ 0) ⟨.ofInt 1, .ofInt (-3), .ofInt 3⟩ (.ofInt 2)
    (by rw [FiniteDouble.ofInt_value (by norm_num), Int.floor_intCast])
    (by rw [FiniteDouble.ofInt_value (by norm_num), Int.floor_intCast])
    (by rw [FiniteDouble.ofInt_value (by norm_num), Int.floor_intCast]) (by decide)
    (by rw [FiniteDouble.ofInt_value (by norm_num), Int.floor_intCast]) (by norm_num)

end BedrockProtocol
