import BedrockProtocol.World.WorldIterators

/-!
# The order of the Manhattan iterator

From the corner `(L, 0)` the iterator goes around the ring of the cells at
distance `L` in four legs, and steps out to the next corner behind the last.
The rings follow each other from the start outwards, so up to the first end
marker every cell nearer than the maximum distance is yielded once.
-/

namespace BedrockProtocol

namespace ManhattanIterator

/-! ## Rings -/

def firstLeg (L i : ℕ) : ℤ × ℤ := ((L : ℤ) - i, (i : ℤ))

def secondLeg (L i : ℕ) : ℤ × ℤ := (-(i : ℤ), (L : ℤ) - i)

def thirdLeg (L i : ℕ) : ℤ × ℤ := ((i : ℤ) - L, -(i : ℤ))

def fourthLeg (L i : ℕ) : ℤ × ℤ := ((i : ℤ), (i : ℤ) - L)

/-- The cells of the ring at distance `L` behind its corner `(L, 0)`. -/
def around (L : ℕ) : List (ℤ × ℤ) :=
  (List.range L).map (fun i ↦ firstLeg L (i + 1)) ++
    (List.range L).map (fun i ↦ secondLeg L (i + 1)) ++
    (List.range L).map (fun i ↦ thirdLeg L (i + 1)) ++
    (List.range (L - 1)).map (fun i ↦ fourthLeg L (i + 1))

/-- The cells of the ring at distance `L`, corner first. -/
def ring (L : ℕ) : List (ℤ × ℤ) := ((L : ℤ), (0 : ℤ)) :: around L

/-- The distance of an offset. -/
def distance (d : ℤ × ℤ) : ℤ := |d.1| + |d.2|

theorem mem_ring {L : ℕ} (hL : 1 ≤ L) {d : ℤ × ℤ} : d ∈ ring L ↔ distance d = L := by
  obtain ⟨dx, dz⟩ := d
  simp only [ring, around, firstLeg, secondLeg, thirdLeg, fourthLeg, distance, List.mem_cons,
    List.mem_append, List.mem_map, List.mem_range, Prod.mk.injEq]
  constructor
  · rintro (⟨rfl, rfl⟩ | (((⟨i, hi, rfl, rfl⟩ | ⟨i, hi, rfl, rfl⟩) | ⟨i, hi, rfl, rfl⟩) |
      ⟨i, hi, rfl, rfl⟩))
    · simp
    · rw [abs_of_nonneg (by omega), abs_of_nonneg (by omega)]
      ring
    · rw [abs_of_nonpos (by omega), abs_of_nonneg (by omega)]
      ring
    · rw [abs_of_nonpos (by omega), abs_of_nonpos (by omega)]
      ring
    · rw [abs_of_nonneg (by omega), abs_of_nonpos (by omega)]
      ring
  · intro h
    obtain ⟨hx, hx'⟩ | ⟨hx, hx'⟩ := abs_cases dx <;> obtain ⟨hz, hz'⟩ | ⟨hz, hz'⟩ := abs_cases dz
    · by_cases hzero : dz = 0
      · exact .inl ⟨by omega, hzero⟩
      · exact .inr (.inl (.inl (.inl ⟨(dz - 1).toNat, by omega, by omega, by omega⟩)))
    · by_cases hzero : dx = 0
      · exact .inr (.inl (.inr ⟨(-1 - dz).toNat, by omega, by omega, by omega⟩))
      · exact .inr (.inr ⟨(dx - 1).toNat, by omega, by omega, by omega⟩)
    · exact .inr (.inl (.inl (.inr ⟨(-1 - dx).toNat, by omega, by omega, by omega⟩)))
    · exact .inr (.inl (.inr ⟨(-1 - dz).toNat, by omega, by omega, by omega⟩))

theorem nodup_ring (L : ℕ) : (ring L).Nodup := by
  simp only [ring, around, firstLeg, secondLeg, thirdLeg, fourthLeg, List.nodup_cons,
    List.nodup_append, List.mem_append, List.mem_map, List.mem_range, Prod.mk.injEq]
  refine ⟨?corner, ⟨⟨?first, ?second, ?secondFirst⟩, ?third, ?thirdBefore⟩, ?fourth, ?fourthBefore⟩
  case corner => rintro (((⟨i, hi, h⟩ | ⟨i, hi, h⟩) | ⟨i, hi, h⟩) | ⟨i, hi, h⟩) <;> omega
  case first | second | third | fourth =>
    refine List.nodup_range.map fun i j h ↦ ?_
    simp only [Prod.mk.injEq] at h
    omega
  case secondFirst =>
    rintro _ ⟨i, hi, rfl⟩ _ ⟨j, hj, rfl⟩ h
    simp only [Prod.mk.injEq] at h
    omega
  case thirdBefore =>
    rintro _ (⟨i, hi, rfl⟩ | ⟨i, hi, rfl⟩) _ ⟨j, hj, rfl⟩ h <;>
      simp only [Prod.mk.injEq] at h <;> omega
  case fourthBefore =>
    rintro _ ((⟨i, hi, rfl⟩ | ⟨i, hi, rfl⟩) | ⟨i, hi, rfl⟩) _ ⟨j, hj, rfl⟩ h <;>
      simp only [Prod.mk.injEq] at h <;> omega

/-- The cells nearer than `n`, ring after ring. -/
def rings (n : ℕ) : List (ℤ × ℤ) := layers (fun k ↦ ring (k + 1)) n

theorem distance_eq_zero_iff (d : ℤ × ℤ) : distance d = 0 ↔ d = (0, 0) := by
  rw [distance, add_eq_zero_iff_of_nonneg (abs_nonneg _) (abs_nonneg _), abs_eq_zero, abs_eq_zero,
    Prod.ext_iff]

theorem mem_ring_succ (k : ℕ) (d : ℤ × ℤ) : d ∈ ring (k + 1) ↔ distance d = k + 1 := by
  rw [mem_ring (Nat.le_add_left 1 k)]
  push_cast
  rfl

theorem mem_rings {n : ℕ} (hn : 1 ≤ n) {d : ℤ × ℤ} : d ∈ rings n ↔ distance d < n :=
  mem_layers (fun _ ↦ add_nonneg (abs_nonneg _) (abs_nonneg _)) distance_eq_zero_iff mem_ring_succ
    hn

theorem pairwise_rings (n : ℕ) :
    (rings n).Pairwise fun d d' ↦ distance d ≤ distance d' ∧ d ≠ d' :=
  pairwise_layers distance_eq_zero_iff mem_ring_succ (fun k ↦ nodup_ring (k + 1)) n

/-! ## Legs -/

/-- The iterator at an offset of a layer. -/
def goTo (it : ManhattanIterator) (d : ℤ × ℤ) (layer leg : ℤ) : ManhattanIterator :=
  { it with x := d.1, z := d.2, layer, leg }

/-- The point of an offset. -/
def pointAt (it : ManhattanIterator) (d : ℤ × ℤ) : WorldVec3 :=
  ⟨it.startX.add (.ofInt d.1), .ofInt 0, it.startZ.add (.ofInt d.2)⟩

section Steps

variable {it : ManhattanIterator} {d : ℤ × ℤ} {layer : ℤ}

theorem next_first (hmax : 1 < it.maxDistance) :
    (it.goTo d layer 0).next = (some (it.pointAt (d.1 - 1, d.2 + 1)),
      it.goTo (d.1 - 1, d.2 + 1) layer (if d.1 - 1 = 0 then 1 else 0)) := by
  have hle : ¬it.maxDistance ≤ 1 := by omega
  exact if_neg hle

theorem next_second :
    (it.goTo d layer 1).next = (some (it.pointAt (d.1 - 1, d.2 - 1)),
      it.goTo (d.1 - 1, d.2 - 1) layer (if d.2 - 1 = 0 then 2 else 1)) := rfl

theorem next_third :
    (it.goTo d layer 2).next = (some (it.pointAt (d.1 + 1, d.2 - 1)),
      it.goTo (d.1 + 1, d.2 - 1) layer (if d.1 + 1 = 0 then 3 else 2)) := rfl

theorem next_fourth (hz : d.2 + 1 ≠ 0) :
    (it.goTo d layer 3).next =
      (some (it.pointAt (d.1 + 1, d.2 + 1)), it.goTo (d.1 + 1, d.2 + 1) layer 3) :=
  if_neg hz

/-- Behind the last cell of a ring the iterator steps out, or ends. -/
theorem next_out {x : ℤ} :
    (it.goTo (x, -1) layer 3).next = if layer + 1 = it.maxDistance then
        (none, it.goTo (x + 2, 0) (layer + 1) 0)
      else (some (it.pointAt (x + 2, 0)), it.goTo (x + 2, 0) (layer + 1) 0) := rfl

end Steps

section Legs

variable {it : ManhattanIterator}

/-- A leg: every step is to the next cell, and only the last one turns. -/
theorem runs_leg {k : ℕ} {cell : ℕ → ℤ × ℤ} {layer leg turned : ℤ} (hk : 1 ≤ k)
    (h : ∀ i < k, (it.goTo (cell i) layer leg).next = (some (it.pointAt (cell (i + 1))),
      it.goTo (cell (i + 1)) layer (if i + 1 = k then turned else leg))) :
    Runs next (it.goTo (cell 0) layer leg)
      (((List.range k).map fun i ↦ cell (i + 1)).map it.pointAt)
      (it.goTo (cell k) layer turned) := by
  have hrun : Runs next _ _ _ :=
    Runs.leg (fun i ↦ it.goTo (cell i) layer (if i = k then turned else leg))
      (fun i ↦ it.pointAt (cell (i + 1))) k fun i hi ↦ by
        simp only [if_neg hi.ne]
        exact h i hi
  rw [if_neg (by omega), if_pos rfl] at hrun
  rwa [List.map_map]

/-- What a step yields and where it leads, with the cell and the turn in other words. -/
theorem step_congr {d d' : ℤ × ℤ} {layer turned leg : ℤ} {c c' : Prop} [Decidable c]
    [Decidable c'] (hd : d = d') (hturn : c ↔ c') :
    (some (it.pointAt d), it.goTo d layer (if c then turned else leg)) =
      (some (it.pointAt d'), it.goTo d' layer (if c' then turned else leg)) := by
  subst hd
  simp only [hturn]

theorem runs_firstLeg {L : ℕ} (hL : 1 ≤ L) (hmax : 1 < it.maxDistance) (layer : ℤ) :
    Runs next (it.goTo (firstLeg L 0) layer 0)
      (((List.range L).map fun i ↦ firstLeg L (i + 1)).map it.pointAt)
      (it.goTo (firstLeg L L) layer 1) := by
  refine runs_leg hL fun i hi ↦ (next_first hmax).trans (step_congr ?_ ?_)
  · simp only [firstLeg, Prod.mk.injEq]
    omega
  · simp only [firstLeg]
    omega

theorem runs_secondLeg {L : ℕ} (hL : 1 ≤ L) (layer : ℤ) :
    Runs next (it.goTo (secondLeg L 0) layer 1)
      (((List.range L).map fun i ↦ secondLeg L (i + 1)).map it.pointAt)
      (it.goTo (secondLeg L L) layer 2) := by
  refine runs_leg hL fun i hi ↦ next_second.trans (step_congr ?_ ?_)
  · simp only [secondLeg, Prod.mk.injEq]
    omega
  · simp only [secondLeg]
    omega

theorem runs_thirdLeg {L : ℕ} (hL : 1 ≤ L) (layer : ℤ) :
    Runs next (it.goTo (thirdLeg L 0) layer 2)
      (((List.range L).map fun i ↦ thirdLeg L (i + 1)).map it.pointAt)
      (it.goTo (thirdLeg L L) layer 3) := by
  refine runs_leg hL fun i hi ↦ next_third.trans (step_congr ?_ ?_)
  · simp only [thirdLeg, Prod.mk.injEq]
    omega
  · simp only [thirdLeg]
    omega

theorem runs_fourthLeg (L : ℕ) (layer : ℤ) :
    Runs next (it.goTo (fourthLeg L 0) layer 3)
      (((List.range (L - 1)).map fun i ↦ fourthLeg L (i + 1)).map it.pointAt)
      (it.goTo (fourthLeg L (L - 1)) layer 3) := by
  rw [List.map_map]
  refine Runs.leg (fun i ↦ it.goTo (fourthLeg L i) layer 3) _ _ fun i hi ↦ ?_
  have hcell : ((fourthLeg L i).1 + 1, (fourthLeg L i).2 + 1) = fourthLeg L (i + 1) := by
    simp only [fourthLeg, Prod.mk.injEq]
    omega
  rw [next_fourth (by simp only [fourthLeg]; omega), hcell]
  rfl

/-- From a corner around the ring to the cell before the corner. -/
theorem runs_around {L : ℕ} (hL : 1 ≤ L) (hmax : 1 < it.maxDistance) (layer : ℤ) :
    Runs next (it.goTo (L, 0) layer 0) ((around L).map it.pointAt)
      (it.goTo ((L : ℤ) - 1, -1) layer 3) := by
  have hstart : firstLeg L 0 = ((L : ℤ), 0) := by simp [firstLeg]
  have hsecond : firstLeg L L = secondLeg L 0 := by simp [firstLeg, secondLeg]
  have hthird : secondLeg L L = thirdLeg L 0 := by simp [secondLeg, thirdLeg]
  have hfourth : thirdLeg L L = fourthLeg L 0 := by simp [thirdLeg, fourthLeg]
  have hlast : fourthLeg L (L - 1) = ((L : ℤ) - 1, -1) := by
    rw [fourthLeg, Nat.cast_sub hL]
    ext <;> simp
  have hrun := (((runs_firstLeg hL hmax layer).append
    (hsecond ▸ runs_secondLeg hL layer)).append (hthird ▸ runs_thirdLeg hL layer)).append
    (hfourth ▸ runs_fourthLeg L layer)
  rw [hstart, hlast] at hrun
  simpa only [around, List.map_append] using hrun

/-- The iterator just before the corner of the ring at distance `k + 1`. -/
def beforeRing (it : ManhattanIterator) : ℕ → ManhattanIterator
  | 0 => it.goTo (2, -1) 1 0
  | L + 1 => it.goTo (L, -1) (L + 1) 3

theorem runs_ring {k : ℕ} (hmax : (k : ℤ) + 1 < it.maxDistance) :
    Runs next (it.beforeRing k) ((ring (k + 1)).map it.pointAt) (it.beforeRing (k + 1)) := by
  have hcorner : (it.beforeRing k).next = (some (it.pointAt (((k + 1 : ℕ) : ℤ), 0)),
      it.goTo (((k + 1 : ℕ) : ℤ), 0) (k + 1) 0) := by
    cases k with
    | zero => exact next_first (by simpa using hmax)
    | succ L =>
        push_cast at hmax ⊢
        rw [beforeRing, next_out, if_neg (by omega)]
        simp only [add_assoc]
        rfl
  have hlast : ((k + 1 : ℕ) : ℤ) - 1 = k := by push_cast; omega
  have hmax' : 1 < it.maxDistance := by omega
  have hrest := runs_around (Nat.le_add_left 1 k) hmax' (k + 1)
  rw [hlast] at hrest
  exact .step hcorner hrest

end Legs

/-! ## The whole run -/

/-- The iterator yields the rings one after the other up to the end marker. -/
theorem yieldsToEnd_rings (startX startZ : FiniteDouble) {n : ℕ} (hn : 1 ≤ n) :
    YieldsToEnd next { maxDistance := n, startX, startZ }
      ((rings n).map fun d ↦ (⟨startX.add (.ofInt d.1), .ofInt 0, startZ.add (.ofInt d.2)⟩ :
        WorldVec3)) := by
  let it : ManhattanIterator := { maxDistance := n, startX, startZ }
  have hstart : it.next = (some (it.pointAt (0, 0)), it.beforeRing 0) := by
    have hpoint : it.pointAt (0, 0) = ⟨startX, .ofInt 0, startZ⟩ := by
      rw [pointAt, FiniteDouble.add_ofInt_zero, FiniteDouble.add_ofInt_zero]
    rw [hpoint]
    rfl
  have hlaps : Runs next _ _ _ :=
    Runs.laps it.beforeRing (fun k ↦ (ring (k + 1)).map it.pointAt) (n - 1) fun k hk ↦
      runs_ring (by change (k : ℤ) + 1 < n; omega)
  refine ⟨it.beforeRing (n - 1), ?_, ?_⟩
  · have hrun := Runs.step hstart hlaps
    rwa [← List.map_flatMap] at hrun
  · obtain ⟨k, rfl⟩ : ∃ k, n = k + 1 := ⟨n - 1, by omega⟩
    cases k with
    | zero => rfl
    | succ L =>
        change ((it.goTo (L, -1) (L + 1) 3).next).1 = none
        rw [next_out, if_pos]
        change (L : ℤ) + 1 + 1 = ((L + 1 + 1 : ℕ) : ℤ)
        push_cast
        rfl

end ManhattanIterator

/-- The points are the cells nearer than `n` to `(x, z)`, each once, the nearer ones first. -/
def VisitsDiamond (points : List WorldVec3) (x z n : ℤ) : Prop :=
  ∃ cells : List (ℤ × ℤ), List.Forall₂ (WorldVec3.IsCell 0) points cells ∧ cells.Nodup ∧
    (∀ c : ℤ × ℤ, c ∈ cells ↔ |c.1 - x| + |c.2 - z| < n) ∧
    cells.Pairwise fun c c' ↦ |c.1 - x| + |c.2 - z| ≤ |c'.1 - x| + |c'.2 - z|

namespace ManhattanIterator

theorem visitsDiamond {startX startZ : FiniteDouble} {x z : ℤ} (hx : startX.value = x)
    (hz : startZ.value = z) {n : ℕ} (hn : 1 ≤ n)
    (hnear : n = 1 ∨ |x| + (n - 1) ≤ 2 ^ 53 ∧ |z| + (n - 1) ≤ 2 ^ 53) :
    VisitsDiamond ((rings n).map fun d ↦ ⟨startX.add (.ofInt d.1), .ofInt 0,
      startZ.add (.ofInt d.2)⟩) x z n := by
  have hmem (c : ℤ × ℤ) : c ∈ cellsAround x z (rings n) ↔ |c.1 - x| + |c.2 - z| < n := by
    rw [mem_cellsAround, mem_rings hn, distance]
  refine ⟨cellsAround x z (rings n), cellsAround_isCell fun d hd ↦ ?_, ?_, hmem, ?_⟩
  · have hdistance : |d.1| + |d.2| < n := (mem_rings hn).mp hd
    have hd₁ : 0 ≤ |d.1| := abs_nonneg _
    have hd₂ : 0 ≤ |d.2| := abs_nonneg _
    exact ⟨FiniteDouble.add_ofInt_near hx (hnear.imp (by omega) And.left) (by omega),
      FiniteDouble.ofInt_value (by norm_num),
      FiniteDouble.add_ofInt_near hz (hnear.imp (by omega) And.right) (by omega)⟩
  · exact nodup_cellsAround ((pairwise_rings n).imp fun h ↦ h.2)
  · rw [cellsAround, List.pairwise_map]
    refine (pairwise_rings n).imp fun {d d'} h ↦ ?_
    simpa [distance] using h.1

end ManhattanIterator

/-- Cells beyond `2 ^ 53` have no point, so no diamond that reaches there is visited. -/
theorem VisitsDiamond.near {points : List WorldVec3} {x z n : ℤ} (h : VisitsDiamond points x z n)
    (hn : 1 < n) : |x| + (n - 1) ≤ 2 ^ 53 ∧ |z| + (n - 1) ≤ 2 ^ 53 := by
  obtain ⟨cells, hcells, -, hmem, -⟩ := h
  constructor
  · by_contra hfar
    obtain ⟨d, hd, hnot⟩ := FiniteDouble.exists_not_double_near (x := x) (r := n - 1) (by omega)
      (by omega)
    have hcell : (x + d, z) ∈ cells := (hmem _).mpr (by simp; omega)
    obtain ⟨point, hpoint, -⟩ := exists_isCell hcells hcell
    exact hnot _ hpoint
  · by_contra hfar
    obtain ⟨d, hd, hnot⟩ := FiniteDouble.exists_not_double_near (x := z) (r := n - 1) (by omega)
      (by omega)
    have hcell : (x, z + d) ∈ cells := (hmem _).mpr (by simp; omega)
    obtain ⟨point, -, -, hpoint⟩ := exists_isCell hcells hcell
    exact hnot _ hpoint

/-- Up to its first end marker the iterator visits the cells nearer than the
whole part `n` of the maximum distance, each once and the nearer ones first,
exactly when doubles count without gaps that far. -/
theorem manhattan_visits_diamond_iff (undefinedCast : FiniteDouble → Int64)
    (startX startZ maxDistance : FiniteDouble) {x z n : ℤ} (hx : startX.value = x)
    (hz : startZ.value = z) (hmax : ⌊maxDistance.value⌋ = n) (hn : 1 ≤ n) :
    (∃ points, YieldsToEnd ManhattanIterator.next
      (ManhattanIterator.create undefinedCast startX startZ maxDistance) points ∧
      VisitsDiamond points x z n) ↔
    n = 1 ∨ |x| + (n - 1) ≤ 2 ^ 53 ∧ |z| + (n - 1) ≤ 2 ^ 53 := by
  constructor
  · rintro ⟨points, -, hvisits⟩
    by_cases hone : n = 1
    · exact .inl hone
    · exact .inr (hvisits.near (by omega))
  · intro hnear
    have hx' : 0 ≤ |x| := abs_nonneg x
    have hcast : maxDistance.floor.toInt64 undefinedCast = n := by
      refine FiniteDouble.toInt64_of_int ?_ (by omega) (by omega)
      rw [FiniteDouble.floor_value, hmax]
    obtain ⟨k, rfl⟩ := Int.eq_ofNat_of_zero_le (by omega : 0 ≤ n)
    have hk : 1 ≤ k := by omega
    refine ⟨_, ?_, ManhattanIterator.visitsDiamond hx hz hk (by simpa using hnear)⟩
    rw [ManhattanIterator.create, hcast]
    exact ManhattanIterator.yieldsToEnd_rings startX startZ hk

theorem manhattan_visits_diamond_three :
    ∃ points, YieldsToEnd ManhattanIterator.next
      (ManhattanIterator.create (fun _ ↦ 0) (.ofInt 10) (.ofInt (-3)) (.ofInt 3)) points ∧
      VisitsDiamond points 10 (-3) 3 :=
  (manhattan_visits_diamond_iff (fun _ ↦ 0) (.ofInt 10) (.ofInt (-3)) (.ofInt 3)
    (FiniteDouble.ofInt_value (by norm_num)) (FiniteDouble.ofInt_value (by norm_num))
    (by rw [FiniteDouble.ofInt_value (by norm_num), Int.floor_intCast]) (by norm_num)).mpr
    (.inr (by norm_num))

/-- Behind `2 ^ 53` the cells with an odd coordinate are not visited. -/
theorem manhattan_misses_odd_cell :
    (FiniteDouble.ofInt (2 ^ 53)).value = ((2 ^ 53 : ℤ) : ℚ) ∧
      ¬∃ points, YieldsToEnd ManhattanIterator.next
        (ManhattanIterator.create (fun _ ↦ 0) (.ofInt (2 ^ 53)) (.ofInt 0) (.ofInt 2)) points ∧
        VisitsDiamond points (2 ^ 53) 0 2 := by
  refine ⟨FiniteDouble.ofInt_value (by norm_num), ?_⟩
  rintro ⟨points, -, hvisits⟩
  have hnear := (hvisits.near (by norm_num)).1
  norm_num at hnear

end BedrockProtocol
