import BedrockProtocol.Lib.FiniteDouble
import BedrockProtocol.Lib.Iteration

/-!
# The Manhattan, the octahedron and the spiral iterator

`ManhattanIterator`, `OctahedronIterator` and `SpiralIterator2d` of
`WorldIterators.cpp`.  They count cells in 64-bit words and add the counts to a
start that is a point of doubles, so what they yield is rounded.  No counter
gets more than one past the maximum distance before the end, so the words are
integers here.
-/

namespace BedrockProtocol

structure WorldVec3 where
  x : FiniteDouble
  y : FiniteDouble
  z : FiniteDouble

namespace WorldVec3

def offset (pos : WorldVec3) (dx dy dz : FiniteDouble) : WorldVec3 :=
  ⟨pos.x.add dx, pos.y.add dy, pos.z.add dz⟩

/-- The point of a cell at a height. -/
def IsCell (y : ℚ) (point : WorldVec3) (cell : ℤ × ℤ) : Prop :=
  point.x.value = cell.1 ∧ point.y.value = y ∧ point.z.value = cell.2

end WorldVec3

structure ManhattanIterator where
  maxDistance : ℤ
  startX : FiniteDouble
  startZ : FiniteDouble
  x : ℤ := 2
  z : ℤ := -1
  layer : ℤ := 1
  leg : ℤ := -1

namespace ManhattanIterator

def create (undefinedCast : FiniteDouble → Int64) (x z maxDistance : FiniteDouble) :
    ManhattanIterator :=
  { maxDistance := maxDistance.floor.toInt64 undefinedCast, startX := x, startZ := z }

def point (it : ManhattanIterator) : WorldVec3 :=
  ⟨it.startX.add (.ofInt it.x), .ofInt 0, it.startZ.add (.ofInt it.z)⟩

def next (it : ManhattanIterator) : Option WorldVec3 × ManhattanIterator :=
  if it.leg = -1 then (some ⟨it.startX, .ofInt 0, it.startZ⟩, { it with leg := 0 })
  else if it.leg = 0 then
    if it.maxDistance ≤ 1 then (none, it)
    else
      let x := it.x - 1
      let it := { it with x, z := it.z + 1, leg := if x = 0 then 1 else 0 }
      (some it.point, it)
  else if it.leg = 1 then
    let z := it.z - 1
    let it := { it with x := it.x - 1, z, leg := if z = 0 then 2 else 1 }
    (some it.point, it)
  else if it.leg = 2 then
    let x := it.x + 1
    let it := { it with x, z := it.z - 1, leg := if x = 0 then 3 else 2 }
    (some it.point, it)
  else if it.leg = 3 then
    let z := it.z + 1
    if z = 0 then
      let it := { it with x := it.x + 2, z, leg := 0, layer := it.layer + 1 }
      if it.layer = it.maxDistance then (none, it) else (some it.point, it)
    else
      let it := { it with x := it.x + 1, z }
      (some it.point, it)
  else (some it.point, it)

end ManhattanIterator

structure OctahedronIterator where
  start : WorldVec3
  maxDistance : FiniteDouble
  apothem : ℤ := 1
  x : ℤ := -1
  y : ℤ := -1
  z : ℤ := -1
  left : ℤ := 1
  right : ℤ := 2

namespace OctahedronIterator

def create (undefinedCast : FiniteDouble → Int32) (start : WorldVec3)
    (maxDistance : FiniteDouble) : OctahedronIterator :=
  let floored (a : FiniteDouble) : FiniteDouble := .ofInt (a.floor.toInt32 undefinedCast)
  { start := ⟨floored start.x, floored start.y, floored start.z⟩, maxDistance }

/-- The next of the eight octants, or the first one of the next octahedron. -/
def nextOctant (it : OctahedronIterator) : OctahedronIterator :=
  if it.z + 2 ≤ 1 then { it with z := it.z + 2 }
  else if it.y + 2 ≤ 1 then { it with y := it.y + 2, z := -1 }
  else if it.x + 2 ≤ 1 then { it with x := it.x + 2, y := -1, z := -1 }
  else { it with apothem := it.apothem + 1, x := -1, y := -1, z := -1 }

/-- The counters behind a cell. -/
def advance (it : OctahedronIterator) : OctahedronIterator :=
  if 0 ≤ it.right - 1 then { it with right := it.right - 1 }
  else if 0 ≤ it.left - 1 then { it with left := it.left - 1, right := it.left - 1 }
  else { it.nextOctant with left := it.nextOctant.apothem, right := it.nextOctant.apothem }

def point (it : OctahedronIterator) : WorldVec3 :=
  let x := it.x * it.right
  let y := it.y * (it.apothem - it.left)
  let z := it.z * (it.apothem - (|x| + |y|))
  it.start.offset (.ofInt x) (.ofInt y) (.ofInt z)

def next (it : OctahedronIterator) : Option WorldVec3 × OctahedronIterator :=
  if it.maxDistance.value < (FiniteDouble.ofInt it.apothem).value then (none, it)
  else (some it.advance.point, it.advance)

end OctahedronIterator

structure SpiralIterator2d where
  start : WorldVec3
  numberOfPoints : ℤ
  di : ℤ := 1
  dj : ℤ := 0
  segmentLength : ℤ := 1
  i : ℤ := 0
  j : ℤ := 0
  segmentPassed : ℤ := 0
  iteration : ℤ := 0

namespace SpiralIterator2d

/-- The side of the square, `(floor(maxDistance) - 0.5) * 2.0`. -/
def side (maxDistance : FiniteDouble) : FiniteDouble :=
  (maxDistance.floor.sub (.ofRat (1 / 2))).mul (.ofInt 2)

def create (undefinedCast : FiniteDouble → Int64) (start : WorldVec3)
    (maxDistance : FiniteDouble) : SpiralIterator2d :=
  { start
    numberOfPoints := ((side maxDistance).mul (side maxDistance)).floor.toInt64 undefinedCast }

/-- The turn at the end of a segment: every second one makes the next longer. -/
def turn (it : SpiralIterator2d) : SpiralIterator2d :=
  if it.segmentPassed = it.segmentLength then
    { it with
      segmentPassed := 0
      di := -it.dj
      dj := it.di
      segmentLength := if it.di = 0 then it.segmentLength + 1 else it.segmentLength }
  else it

def next (it : SpiralIterator2d) : Option WorldVec3 × SpiralIterator2d :=
  if it.numberOfPoints ≤ it.iteration then (none, it)
  else
    let output := it.start.offset (.ofInt it.i) (.ofInt 0) (.ofInt it.j)
    let it := { it with
      i := it.i + it.di
      j := it.j + it.dj
      segmentPassed := it.segmentPassed + 1 }.turn
    (some output, { it with iteration := it.iteration + 1 })

end SpiralIterator2d

/-! ## Cells around a start -/

section Layers

variable {size : ℤ × ℤ → ℤ} {layer : ℕ → List (ℤ × ℤ)}

/-- The start and the first layers around it. -/
def layers (layer : ℕ → List (ℤ × ℤ)) (n : ℕ) : List (ℤ × ℤ) :=
  (0, 0) :: (List.range (n - 1)).flatMap layer

theorem mem_layers (hsize : ∀ d, 0 ≤ size d) (hzero : ∀ d, size d = 0 ↔ d = (0, 0))
    (hlayer : ∀ k d, d ∈ layer k ↔ size d = k + 1) {n : ℕ} (hn : 1 ≤ n) {d : ℤ × ℤ} :
    d ∈ layers layer n ↔ size d < n := by
  have hpos := hsize d
  rw [layers, List.mem_cons, List.mem_flatMap, ← hzero]
  simp only [List.mem_range, hlayer]
  constructor
  · rintro (h | ⟨k, hk, h⟩) <;> omega
  · intro h
    by_cases hd : size d = 0
    · exact .inl hd
    · exact .inr ⟨(size d - 1).toNat, by omega, by omega⟩

theorem pairwise_layers (hzero : ∀ d, size d = 0 ↔ d = (0, 0))
    (hlayer : ∀ k d, d ∈ layer k ↔ size d = k + 1) (hnodup : ∀ k, (layer k).Nodup) (n : ℕ) :
    (layers layer n).Pairwise fun d d' ↦ size d ≤ size d' ∧ d ≠ d' := by
  have hstart : size (0, 0) = 0 := (hzero _).mpr rfl
  rw [layers, List.pairwise_cons]
  constructor
  · intro d hd
    obtain ⟨k, -, hd⟩ := List.mem_flatMap.mp hd
    have hfar := (hlayer k d).mp hd
    refine ⟨by omega, ?_⟩
    rintro rfl
    omega
  · rw [List.pairwise_flatMap]
    constructor
    · intro k _
      refine (hnodup k).imp_of_mem fun hd hd' hne ↦ ⟨?_, hne⟩
      rw [(hlayer k _).mp hd, (hlayer k _).mp hd']
    · refine List.pairwise_lt_range.imp fun {k k'} hlt d hd d' hd' ↦ ?_
      have hnear := (hlayer k d).mp hd
      have hfar := (hlayer k' d').mp hd'
      refine ⟨by omega, ?_⟩
      rintro rfl
      omega

end Layers

/-- The cells of the offsets. -/
def cellsAround (x z : ℤ) (offsets : List (ℤ × ℤ)) : List (ℤ × ℤ) :=
  offsets.map fun d ↦ (x + d.1, z + d.2)

theorem mem_cellsAround {x z : ℤ} {offsets : List (ℤ × ℤ)} {c : ℤ × ℤ} :
    c ∈ cellsAround x z offsets ↔ (c.1 - x, c.2 - z) ∈ offsets := by
  rw [cellsAround, List.mem_map]
  constructor
  · rintro ⟨d, hd, rfl⟩
    simpa using hd
  · intro h
    exact ⟨_, h, by simp⟩

theorem nodup_cellsAround {x z : ℤ} {offsets : List (ℤ × ℤ)} (h : offsets.Nodup) :
    (cellsAround x z offsets).Nodup := by
  refine h.map fun d d' heq ↦ ?_
  simp only [Prod.mk.injEq, add_right_inj] at heq
  exact Prod.ext heq.1 heq.2

/-- A start coordinate with its neighbours below `n` within `2 ^ 53` is moved exactly. -/
theorem FiniteDouble.add_ofInt_near {a : FiniteDouble} {x d n : ℤ} (ha : a.value = x)
    (hnear : n = 1 ∨ |x| + (n - 1) ≤ 2 ^ 53) (hd : |d| < n) :
    (a.add (.ofInt d)).value = ((x + d : ℤ) : ℚ) := by
  obtain rfl | hnear := hnear
  · rw [Int.abs_lt_one_iff.mp hd, add_ofInt_zero, add_zero, ha]
  · have hsum : |x + d| ≤ |x| + |d| := abs_add_le x d
    have hx : 0 ≤ |x| := abs_nonneg x
    exact add_ofInt_value ha (by omega) (by omega)

theorem cellsAround_isCell {x z : ℤ} {y : ℚ} {offsets : List (ℤ × ℤ)} {point : ℤ × ℤ → WorldVec3}
    (h : ∀ d ∈ offsets, (point d).IsCell y (x + d.1, z + d.2)) :
    List.Forall₂ (WorldVec3.IsCell y) (offsets.map point) (cellsAround x z offsets) := by
  rw [cellsAround, List.forall₂_map_left_iff, List.forall₂_map_right_iff, List.forall₂_same]
  exact h

/-- Every cell that is visited has a point of doubles. -/
theorem exists_isCell {y : ℚ} {points : List WorldVec3} {cells : List (ℤ × ℤ)}
    (h : List.Forall₂ (WorldVec3.IsCell y) points cells) {c : ℤ × ℤ} (hc : c ∈ cells) :
    ∃ point : WorldVec3, point.IsCell y c := by
  induction h with
  | nil => cases hc
  | cons hfirst _ ih =>
      obtain rfl | hc := List.mem_cons.mp hc
      · exact ⟨_, hfirst⟩
      · exact ih hc

/-- When a neighbour within `r` lies beyond `2 ^ 53`, some neighbour is no double. -/
theorem FiniteDouble.exists_not_double_near {x r : ℤ} (hr : 1 ≤ r) (hrange : 2 ^ 53 < |x| + r) :
    ∃ d, |d| ≤ r ∧ ∀ b : FiniteDouble, b.value ≠ ((x + d : ℤ) : ℚ) := by
  -- Going outwards from the start, the last neighbour or the one before it is odd.
  have hodd (d : ℤ) (hd : |d| ≤ r) (hodd : (x + d) % 2 = 1) (hfar : 2 ^ 53 ≤ |x + d|) :
      ∃ d, |d| ≤ r ∧ ∀ b : FiniteDouble, b.value ≠ ((x + d : ℤ) : ℚ) := by
    refine ⟨d, hd, fun b hb ↦ ?_⟩
    have hlt := FiniteDouble.abs_lt_of_odd hb hodd
    omega
  obtain hx | hx := abs_cases x
  · by_cases hlast : (x + r) % 2 = 1
    · exact hodd r (abs_le.mpr (by omega)) hlast (le_abs.mpr (by omega))
    · exact hodd (r - 1) (abs_le.mpr (by omega)) (by omega) (le_abs.mpr (by omega))
  · by_cases hlast : (x - r) % 2 = 1
    · exact hodd (-r) (abs_le.mpr (by omega)) (by omega) (le_abs.mpr (by omega))
    · exact hodd (1 - r) (abs_le.mpr (by omega)) (by omega) (le_abs.mpr (by omega))

end BedrockProtocol
