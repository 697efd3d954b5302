import Mathlib.Algebra.BigOperators.Group.List.Basic
import Mathlib.Algebra.GroupWithZero.Nat
import Mathlib.Algebra.Order.Group.Nat
import Mathlib.Data.List.Induction
import Mathlib.Data.List.Nodup

/-!
# Histograms of lists of numbers

`Histogram counts xs` says that `counts` lists how often each number occurs in
`xs` and that no other number occurs.  A histogram can be kept up to date while
single positions of `xs` change, and its empty columns can be dropped if the
numbers in `xs` are replaced by their ranks among the columns that are left.
-/

namespace BedrockProtocol

structure Histogram (counts xs : List ℕ) : Prop where
  lt_length : ∀ x ∈ xs, x < counts.length
  count_eq : ∀ i (h : i < counts.length), counts[i] = xs.count i

/-- How many elements in front of position `i` satisfy `p`. -/
def rank {α : Type} (p : α → Bool) (l : List α) (i : ℕ) : ℕ := (l.take i).countP p

section Rank

variable {α : Type} (p : α → Bool)

theorem rank_succ {l : List α} {i : ℕ} (hi : i < l.length) :
    rank p l (i + 1) = rank p l i + if p l[i] then 1 else 0 := by
  rw [rank, rank, List.take_succ_eq_append_getElem hi, List.countP_append, List.countP_singleton]

theorem rank_mono (l : List α) {i j : ℕ} (h : i ≤ j) : rank p l i ≤ rank p l j := by
  have hsplit : l.take j = l.take i ++ (l.drop i).take (j - i) := by
    rw [← List.take_add]
    congr 1
    omega
  rw [rank, rank, hsplit, List.countP_append]
  omega

theorem rank_length (l : List α) : rank p l l.length = (l.filter p).length := by
  rw [rank, List.take_length, List.countP_eq_length_filter]

theorem rank_lt {l : List α} {i : ℕ} (hi : i < l.length) (hp : p l[i]) :
    rank p l i < (l.filter p).length := by
  have hstep := rank_succ p hi
  have hle : rank p l (i + 1) ≤ rank p l l.length := rank_mono p l hi
  rw [rank_length] at hle
  rw [if_pos hp] at hstep
  omega

/-- Distinct elements that satisfy `p` have distinct ranks. -/
theorem rank_inj {l : List α} {i j : ℕ} (hi : i < l.length) (hj : j < l.length) (hpi : p l[i])
    (hpj : p l[j]) (h : rank p l i = rank p l j) : i = j := by
  have hstepi := rank_succ p hi
  have hstepj := rank_succ p hj
  rw [if_pos hpi] at hstepi
  rw [if_pos hpj] at hstepj
  rcases lt_trichotomy i j with hlt | heq | hlt
  · have : rank p l (i + 1) ≤ rank p l j := rank_mono p l hlt
    omega
  · exact heq
  · have : rank p l (j + 1) ≤ rank p l i := rank_mono p l hlt
    omega

/-- An element that passes the filter is found at its rank. -/
theorem getElem?_filter_rank {l : List α} {i : ℕ} (hi : i < l.length) (hp : p l[i]) :
    (l.filter p)[rank p l i]? = some l[i] := by
  have hsplit : l.filter p = (l.take i).filter p ++ (l[i] :: (l.drop (i + 1)).filter p) := by
    have htail : (l[i] :: l.drop (i + 1)).filter p = l[i] :: (l.drop (i + 1)).filter p := by
      rw [List.filter_cons, if_pos hp]
    rw [← htail, ← List.drop_eq_getElem_cons hi, ← List.filter_append, List.take_append_drop]
  rw [hsplit, rank, List.countP_eq_length_filter, List.getElem?_append_right (Nat.le_refl _), Nat.sub_self]
  rfl

/-- Every element of the filtered list comes from an element at its rank. -/
theorem exists_rank_eq {l : List α} {k : ℕ} (hk : k < (l.filter p).length) :
    ∃ (i : ℕ) (hi : i < l.length), p l[i] ∧ rank p l i = k := by
  induction l using List.reverseRecOn generalizing k with
  | nil => simp at hk
  | append_singleton l a ih =>
      by_cases hlt : k < (l.filter p).length
      · obtain ⟨i, hi, hp, hr⟩ := ih hlt
        refine ⟨i, by simp; omega, ?_, ?_⟩
        · simpa [List.getElem_append_left hi] using hp
        · rw [rank, List.take_append_of_le_length hi.le]
          exact hr
      · rw [List.filter_append, List.length_append] at hk
        by_cases ha : p a
        · refine ⟨l.length, by simp, by simpa using ha, ?_⟩
          rw [rank, List.take_left', List.countP_eq_length_filter]
          · simp [ha] at hk
            omega
          · rfl
        · simp [ha] at hk
          omega

end Rank

theorem sum_indicator (x : ℕ) (l : List ℕ) :
    (l.map fun i ↦ if x = i then 1 else 0).sum = l.count x := by
  induction l with
  | nil => rfl
  | cons i l ih =>
      have hsymm : (if i == x then 1 else 0) = if x = i then 1 else 0 := by
        simp only [beq_iff_eq, eq_comm (a := i)]
      rw [List.map_cons, List.sum_cons, ih, List.count_cons, Nat.add_comm, hsymm]

theorem sum_count_range {n : ℕ} {xs : List ℕ} (h : ∀ x ∈ xs, x < n) :
    ((List.range n).map xs.count).sum = xs.length := by
  induction xs with
  | nil => simp
  | cons x xs ih =>
      have hone : (List.range n).count x = 1 :=
        List.count_eq_one_of_mem List.nodup_range (List.mem_range.mpr (h x (by simp)))
      have hcons : (x :: xs).count = fun i ↦ xs.count i + if x = i then 1 else 0 := by
        funext i
        simp [List.count_cons]
      rw [hcons, List.sum_map_add, ih fun y hy ↦ h y (by simp [hy]), sum_indicator, hone,
        List.length_cons]

namespace Histogram

variable {counts xs : List ℕ}

theorem eq_map (h : Histogram counts xs) : counts = (List.range counts.length).map xs.count := by
  apply List.ext_getElem (by simp)
  intro i hi hi'
  simpa using h.count_eq i hi

/-- The columns add up to the length of the list. -/
theorem sum_eq (h : Histogram counts xs) : counts.sum = xs.length := by
  rw [h.eq_map, sum_count_range h.lt_length]

theorem tally {n : ℕ} (h : ∀ x ∈ xs, x < n) : Histogram ((List.range n).map xs.count) xs :=
  ⟨by simpa using h, by simp⟩

theorem replicate_zero (n : ℕ) : Histogram [n] (List.replicate n 0) where
  lt_length x hx := by simp [List.eq_of_mem_replicate hx]
  count_eq i hi := by
    obtain rfl : i = 0 := by simpa using hi
    simp

/-- A new column is empty. -/
theorem append_zero (h : Histogram counts xs) : Histogram (counts ++ [0]) xs where
  lt_length x hx := by
    have := h.lt_length x hx
    simp
    omega
  count_eq i hi := by
    rw [List.getElem_append]
    split
    · exact h.count_eq i _
    · have hnot : i ∉ xs := fun hmem ↦ by
        have := h.lt_length i hmem
        omega
      simp [List.count_eq_zero_of_not_mem hnot]

/-- One position changes from its number to another: its column loses one and
the other gains one. -/
theorem move (h : Histogram counts xs) {p new : ℕ} (hp : p < xs.length)
    (hnew : new < counts.length) (hne : new ≠ xs[p]) :
    Histogram ((counts.modify xs[p] (· - 1)).modify new (· + 1)) (xs.set p new) where
  lt_length x hx := by
    rw [List.length_modify, List.length_modify]
    rcases List.mem_or_eq_of_mem_set hx with hx | rfl
    · exact h.lt_length x hx
    · exact hnew
  count_eq i hi := by
    have hi' : i < counts.length := by simpa using hi
    have hcount := h.count_eq i hi'
    rw [List.getElem_modify, List.getElem_modify, List.count_set hp]
    by_cases hold : xs[p] = i
    · have hother : ¬ new = i := fun heq ↦ hne (heq.trans hold.symm)
      simp [hold, hother, hcount]
    · by_cases hnew' : new = i
      · simp [hold, hnew', hcount]
      · simp [hold, hnew', hcount]

/-- One position changes from its number to one that did not occur. -/
theorem move_new (h : Histogram counts xs) {p : ℕ} (hp : p < xs.length) :
    Histogram (counts.modify xs[p] (· - 1) ++ [1]) (xs.set p counts.length) := by
  have hlt := h.lt_length _ (List.getElem_mem hp)
  have hmove := h.append_zero.move hp (List.length_append ▸ Nat.lt_succ_self counts.length)
    (Nat.ne_of_gt hlt)
  have hcounts : ((counts ++ [0]).modify xs[p] (· - 1)).modify counts.length (· + 1) =
      counts.modify xs[p] (· - 1) ++ [1] := by
    apply List.ext_getElem (by simp)
    intro i hi hi'
    by_cases hlast : i < counts.length
    · have hne : ¬ counts.length = i := by omega
      simp [List.getElem_modify, hlast, hne]
    · obtain rfl : i = counts.length := by simp at hi'; omega
      have hne : ¬ xs[p] = counts.length := by omega
      simp [hne]
  rwa [hcounts] at hmove

/-- Dropping the empty columns and renumbering by rank. -/
theorem dropZeros (h : Histogram counts xs) :
    Histogram (counts.filter (0 < ·)) (xs.map (rank (0 < ·) counts)) := by
  have hused : ∀ x ∈ xs, ∃ hx : x < counts.length, decide (0 < counts[x]) = true := by
    intro x hx
    refine ⟨h.lt_length x hx, ?_⟩
    rw [h.count_eq]
    simpa using List.count_pos_iff.mpr hx
  refine ⟨?_, fun k hk ↦ ?_⟩
  · intro y hy
    obtain ⟨x, hx, rfl⟩ := List.mem_map.mp hy
    obtain ⟨hlt, hpos⟩ := hused x hx
    exact rank_lt _ hlt hpos
  · obtain ⟨i, hi, hpos, rfl⟩ := exists_rank_eq _ hk
    have hget : (counts.filter (0 < ·))[rank (0 < ·) counts i] = counts[i] := by
      have := getElem?_filter_rank (fun n : ℕ ↦ decide (0 < n)) hi hpos
      rw [List.getElem?_eq_getElem hk] at this
      exact Option.some.inj this
    rw [hget, h.count_eq, List.count_eq_countP, List.count_eq_countP, List.countP_map]
    refine List.countP_congr fun x hx ↦ ?_
    obtain ⟨hlt, hposx⟩ := hused x hx
    simp only [Function.comp_apply, beq_iff_eq]
    exact ⟨fun heq ↦ by rw [heq], rank_inj _ hlt hi hposx hpos⟩

end Histogram

end BedrockProtocol
