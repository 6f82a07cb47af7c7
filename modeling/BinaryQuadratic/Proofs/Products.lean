import Mathlib.Algebra.BigOperators.Ring.Finset
import Mathlib.Algebra.Order.Ring.Rat
import Mathlib.Tactic.Ring
import BinaryQuadratic.Quadratic

/-!
# Sparse products over the rationals

Where addition is exact its order does not matter, and every reading of a matrix is one of its
cells.

* `running_eq_sum`, `dot_eq_sum`: running sums as sums;
* `length_times`, `length_timesTransposed`, `length_diagonal`: lengths, over any numbers;
* `getD_times`, `getD_timesTransposed`, `getD_diagonal`: products and diagonal by cells, for entries
  in any order, repeated or zero;
* `value_eq_sum`: the value of a form by cells.
-/

namespace BinaryQuadratic

open Finset

theorem half_rational : (Scalar.half : Rat) = 1 / 2 := by norm_num [Scalar.half, Scalar.two]

theorem two_rational : (Scalar.two : Rat) = 2 := by norm_num [Scalar.two]

namespace Summation

theorem running_eq_sum (xs : List Rat) : running xs = xs.sum := by
  rw [running, List.sum_eq_foldl]

/-- Entries that one of the lists does not have count as zero. -/
theorem dot_eq_sum_of_le {xs ys : List Rat} {n : Nat} (h : min xs.length ys.length ≤ n) :
    dot xs ys = ∑ i ∈ range n, xs.getD i 0 * ys.getD i 0 := by
  rw [dot, running_eq_sum]
  induction xs generalizing ys n with
  | nil => simp
  | cons a xs ih =>
    cases ys with
    | nil => simp
    | cons b ys =>
      simp only [List.length_cons] at h
      obtain ⟨n, rfl⟩ : ∃ m, n = m + 1 := ⟨n - 1, by omega⟩
      rw [List.zipWith_cons_cons, List.sum_cons, ih (n := n) (by omega), sum_range_succ']
      simp [add_comm]

theorem dot_eq_sum {xs ys : List Rat} {n : Nat} (hx : xs.length = n) (hy : ys.length = n) :
    dot xs ys = ∑ i ∈ range n, xs.getD i 0 * ys.getD i 0 :=
  dot_eq_sum_of_le (by omega)

theorem getD_addEach {xs ys : List Rat} (h : xs.length = ys.length) (i : Nat) :
    (addEach xs ys).getD i 0 = xs.getD i 0 + ys.getD i 0 := by
  unfold addEach
  by_cases hi : i < xs.length
  · have hi' : i < ys.length := h ▸ hi
    simp [List.getD_eq_getElem?_getD, hi, hi']
  · have hi' : ¬i < ys.length := h ▸ hi
    simp [List.getD_eq_getElem?_getD, hi, hi']

end Summation

namespace Sparse

section Lengths

variable {α : Type} [Scalar α] (m : Sparse α) (x : List α)

theorem length_foldl_scatter (es : List (Entry α)) (y : List α) :
    (es.foldl (fun y e => y.modify e.position (· + e.value * x.getD e.line 0)) y).length
      = y.length := by
  induction es generalizing y with
  | nil => rfl
  | cons e es ih => rw [List.foldl_cons, ih, List.length_modify]

theorem length_times : (m.times x).length = m.height := by
  simp [times, height]

theorem length_timesTransposed : (m.timesTransposed x).length = m.width := by
  rw [timesTransposed, length_foldl_scatter, List.length_replicate]

theorem length_diagonal : m.diagonal.length = min m.height m.width := by
  simp [diagonal]

end Lengths

theorem entryAt_cons (e : Nat × Rat) (line : List (Nat × Rat)) (j : Nat) :
    entryAt (e :: line) j = (if e.1 = j then e.2 else 0) + entryAt line j := by
  unfold entryAt
  rw [List.filter_cons]
  by_cases h : e.1 = j <;> simp [h, Summation.running_eq_sum]

/-- The entries of a line, each weighted by its position. -/
theorem sum_weighted {line : List (Nat × Rat)} {n : Nat} (h : ∀ e ∈ line, e.1 < n)
    (weight : Nat → Rat) :
    (line.map fun e => e.2 * weight e.1).sum = ∑ j ∈ range n, entryAt line j * weight j := by
  induction line with
  | nil => simp [entryAt, Summation.running_eq_sum]
  | cons e rest ih =>
    rw [List.forall_mem_cons] at h
    simp only [entryAt_cons, add_mul, sum_add_distrib, List.map_cons, List.sum_cons, ih h.2]
    simp [ite_mul, h.1]

theorem lineTimes_eq_sum {line : List (Nat × Rat)} {n : Nat} (h : ∀ e ∈ line, e.1 < n)
    (x : List Rat) : lineTimes x line = ∑ j ∈ range n, entryAt line j * x.getD j 0 := by
  rw [lineTimes, Summation.running_eq_sum]
  exact sum_weighted h fun j => x.getD j 0

variable (m : Sparse Rat) (x : List Rat)

theorem line_bounded (i : Nat) : ∀ e ∈ m.line i, e.1 < m.width := by
  intro e he
  unfold line at he
  rw [List.getD_eq_getElem?_getD] at he
  cases hl : m.lines[i]? with
  | none => simp [hl] at he
  | some l => exact m.bounded l (List.mem_of_getElem? hl) e (by simpa [hl] using he)

theorem getD_times (i : Nat) :
    (m.times x).getD i 0 = ∑ j ∈ range m.width, m.cell i j * x.getD j 0 := by
  rw [show ∑ j ∈ range m.width, m.cell i j * x.getD j 0 = lineTimes x (m.line i) from
    (lineTimes_eq_sum (m.line_bounded i) x).symm]
  unfold times line
  rw [List.getD_eq_getElem?_getD, List.getD_eq_getElem?_getD, List.getElem?_map]
  cases m.lines[i]? with
  | none => simp [lineTimes, Summation.running_eq_sum]
  | some l => rfl

/-- What one line adds to the sum of a column. -/
theorem getD_foldl_line {j : Nat} (line : List (Nat × Rat)) (i : Nat) (y : List Rat)
    (hj : j < y.length) :
    ((line.map fun e => (⟨i, e.1, e.2⟩ : Entry Rat)).foldl
      (fun y e => y.modify e.position (· + e.value * x.getD e.line 0)) y).getD j 0
      = y.getD j 0 + entryAt line j * x.getD i 0 := by
  induction line generalizing y with
  | nil => simp [entryAt, Summation.running_eq_sum]
  | cons e rest ih =>
    rw [List.map_cons, List.foldl_cons, ih _ (by simpa using hj), entryAt_cons]
    simp only [List.getD_eq_getElem?_getD, List.getElem?_modify, List.getElem?_eq_getElem hj]
    by_cases h : e.1 = j
    · simp [h]; ring
    · simp [h]

theorem getD_foldl_number {j : Nat} (lines : List (List (Nat × Rat))) (first : Nat)
    (y : List Rat) (hj : j < y.length) :
    ((number first lines).foldl
      (fun y e => y.modify e.position (· + e.value * x.getD e.line 0)) y).getD j 0
      = y.getD j 0
        + ∑ i ∈ range lines.length, entryAt (lines.getD i []) j * x.getD (first + i) 0 := by
  induction lines generalizing first y with
  | nil => simp [number]
  | cons line rest ih =>
    rw [number, List.foldl_append, ih _ _ (by rwa [length_foldl_scatter]),
      getD_foldl_line x line first y hj, List.length_cons, sum_range_succ']
    simp only [List.getD_cons_zero, List.getD_cons_succ, Nat.add_zero, Nat.add_assoc,
      Nat.add_comm 1]
    ring

theorem getD_timesTransposed {j : Nat} (hj : j < m.width) :
    (m.timesTransposed x).getD j 0 = ∑ i ∈ range m.height, m.cell i j * x.getD i 0 := by
  unfold timesTransposed entries
  rw [getD_foldl_number x m.lines 0 _ (by simpa using hj)]
  simp [cell, line, height, hj]

theorem getD_diagonal {i : Nat} (hi : i < m.height) (hw : i < m.width) :
    m.diagonal.getD i 0 = m.cell i i := by
  simp [diagonal, hi, hw]

end Sparse

namespace Quadratic

/-- The value of a form by the cells of its matrix. -/
theorem value_eq_sum (f : Quadratic Rat) {x : List Rat} (hx : x.length = f.size) :
    f.value x = 1 / 2 * ∑ i ∈ range f.size, x.getD i 0 *
        ∑ j ∈ range f.size, f.matrix.cell i j * x.getD j 0
      + ∑ i ∈ range f.size, f.linear.getD i 0 * x.getD i 0 := by
  have hhalf : (x.map (Scalar.half * ·)).length = f.size := by simpa using hx
  have htimes : (f.matrix.times x).length = f.size := f.matrix.length_times x
  rw [value, Summation.dot_eq_sum hhalf htimes, Summation.dot_eq_sum f.fits hx, mul_sum]
  congr 1
  apply sum_congr rfl
  intro i hi
  have hlt : i < x.length := by rw [hx]; exact mem_range.1 hi
  rw [Sparse.getD_times, f.square, half_rational]
  simp only [List.getD_eq_getElem?_getD, List.getElem?_map, List.getElem?_eq_getElem hlt,
    Option.map_some, Option.getD_some, size]
  ring

end Quadratic

end BinaryQuadratic
