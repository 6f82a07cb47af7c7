import BinaryQuadratic.Proofs.Products

/-!
# Totals over the rationals

Where addition is exact every order of it gives the plain sum.

* `halved_eq_sum`, `balanced_eq_sum`: sums in blocks and by halves;
* `sum_values`: what a matrix stores adds up to the sum of its cells.
-/

namespace BinaryQuadratic

open Finset

namespace Summation

theorem foldl_add_eq (a : Rat) (xs : List Rat) : xs.foldl (· + ·) a = a + xs.sum := by
  induction xs generalizing a with
  | nil => rw [List.foldl_nil, List.sum_nil, add_zero]
  | cons x xs ih => rw [List.foldl_cons, ih, List.sum_cons, add_assoc]

theorem sum_addEach {xs ys : List Rat} (h : xs.length = ys.length) :
    (addEach xs ys).sum = xs.sum + ys.sum := by
  unfold addEach
  induction xs generalizing ys with
  | nil =>
    obtain rfl := List.length_eq_zero_iff.1 h.symm
    simp
  | cons x xs ih =>
    cases ys with
    | nil => cases h
    | cons y ys =>
      rw [List.zipWith_cons_cons, List.sum_cons, ih (Nat.succ.inj h), List.sum_cons, List.sum_cons]
      ring

/-- Accumulators and what is left over hold the whole sum, as long as every block is full. -/
theorem sum_accumulate {blocks : Nat} {acc rest : List Rat} (hacc : acc.length = 8)
    (hrest : 8 * blocks ≤ rest.length) :
    (accumulate blocks acc rest).1.sum + (accumulate blocks acc rest).2.sum
      = acc.sum + rest.sum := by
  induction blocks generalizing acc rest with
  | zero => rfl
  | succ blocks ih =>
    have hblock : (rest.take 8).length = 8 := by
      rw [List.length_take]
      omega
    have hlength : (addEach acc (rest.take 8)).length = 8 := by
      rw [addEach, List.length_zipWith]
      omega
    have hleft : 8 * blocks ≤ (rest.drop 8).length := by
      rw [List.length_drop]
      omega
    rw [accumulate, ih hlength hleft, sum_addEach (hacc.trans hblock.symm), add_assoc,
      List.sum_take_add_sum_drop]

theorem fold8_eq_sum (xs : List Rat) : fold8 xs = xs.sum := by
  unfold fold8
  split
  · simp only [List.sum_cons, List.sum_nil]
    ring
  · exact running_eq_sum xs

theorem interleaved_eq_sum (xs : List Rat) : interleaved xs = xs.sum := by
  unfold interleaved
  split
  · rw [foldl_add_eq, neg_zero, zero_add]
  · rename_i hlong
    have hfirst : (xs.take 8).length = 8 := by
      rw [List.length_take]
      omega
    have hblocks : 8 * (xs.length / 8 - 1) ≤ (xs.drop 8).length := by
      rw [List.length_drop]
      omega
    have whole := sum_accumulate hfirst hblocks
    rw [List.sum_take_add_sum_drop] at whole
    simp only
    rw [foldl_add_eq, fold8_eq_sum, whole]

theorem halved_eq_sum (xs : List Rat) : halved xs = xs.sum := by
  fun_induction halved xs with
  | case1 xs hshort => exact interleaved_eq_sum xs
  | case2 xs hlong ihleft ihright => rw [ihleft, ihright, List.sum_take_add_sum_drop]

theorem balanced_eq_sum (xs : List Rat) : balanced xs = xs.sum := by
  rw [balanced, halved_eq_sum, zero_add]

end Summation

namespace Sparse

theorem sum_line {line : List (Nat × Rat)} {n : Nat} (h : ∀ e ∈ line, e.1 < n) :
    (line.map Prod.snd).sum = ∑ j ∈ range n, entryAt line j := by
  simpa only [mul_one] using sum_weighted h fun _ => 1

/-- What is stored adds up to the sum of all cells. -/
theorem sum_values (m : Sparse Rat) :
    m.values.sum = ∑ i ∈ range m.height, ∑ j ∈ range m.width, m.cell i j := by
  obtain ⟨width, lines, bounded⟩ := m
  unfold values height cell line
  induction lines with
  | nil => rfl
  | cons l rest ih =>
    rw [List.forall_mem_cons] at bounded
    rw [List.flatten_cons, List.map_append, List.sum_append, sum_line bounded.1, ih bounded.2,
      List.length_cons, sum_range_succ']
    simp only [List.getD_cons_succ, List.getD_cons_zero]
    ring

end Sparse

end BinaryQuadratic
