import BinaryQuadratic.Proofs.Products
import BinaryQuadratic.Proofs.Selection

/-!
# Exactness of the estimated changes

Over the rationals the change that is estimated for a variable is the difference of two values of
the form, whatever the matrix is stored like.

* `value_set_sub`: what the form's value changes by along one variable;
* `flips_lengths`: there are two estimates for every variable, over any numbers;
* `changes_getElem?`: the estimate, entry by entry;
* `flips_exact`: both estimates of every variable at the point of a node.
-/

namespace BinaryQuadratic

open Finset

namespace Quadratic

theorem getD_set {x : List Rat} {i : Nat} (hi : i < x.length) (v : Rat) (j : Nat) :
    (x.set i v).getD j 0 = x.getD j 0 + if j = i then v - x.getD i 0 else 0 := by
  simp only [List.getD_eq_getElem?_getD, List.getElem?_set]
  by_cases h : i = j
  · subst h
    simp [hi]
  · simp [h, Ne.symm h]

/-- A form along one variable: the square term of the diagonal, and the linear term of row, column
and linear part. -/
theorem value_set_sub (f : Quadratic Rat) {x : List Rat} (hx : x.length = f.size) {i : Nat}
    (hi : i < f.size) (v : Rat) :
    f.value (x.set i v) - f.value x = 1 / 2 * (v - x.getD i 0) *
      ((v - x.getD i 0) * f.matrix.cell i i + (∑ j ∈ range f.size, f.matrix.cell i j * x.getD j 0
        + ∑ k ∈ range f.size, f.matrix.cell k i * x.getD k 0 + 2 * f.linear.getD i 0)) := by
  have hset : (x.set i v).length = f.size := by rw [List.length_set, hx]
  have hmem : i ∈ range f.size := mem_range.2 hi
  have hlt : i < x.length := by rwa [hx]
  have column : ∑ k ∈ range f.size, x.getD k 0 * (f.matrix.cell k i * (v - x.getD i 0))
      = (v - x.getD i 0) * ∑ k ∈ range f.size, f.matrix.cell k i * x.getD k 0 := by
    rw [mul_sum]
    exact sum_congr rfl fun k _ => by ring
  rw [value_eq_sum f hset, value_eq_sum f hx]
  -- Every entry of the moved point is the old one, and the step at `i` alone: the sums fall apart.
  simp only [getD_set hlt, mul_add, add_mul, sum_add_distrib, mul_ite, ite_mul, mul_zero, zero_mul,
    sum_ite_eq', hmem, if_true, column]
  ring

end Quadratic

namespace Branching

section Lengths

variable {α : Type} [Scalar α]

theorem length_changes {steps diagonal cross : List α} {n : Nat} (hs : steps.length = n)
    (hd : diagonal.length = n) (hc : cross.length = n) :
    (changes steps diagonal cross).length = n := by
  simp [changes, hs, hd, hc]

theorem length_crossTerms (f : Quadratic α) (x : List α) : (crossTerms f x).length = f.size := by
  simp [crossTerms, Summation.addEach, Sparse.length_times, Sparse.length_timesTransposed,
    f.square, f.fits, Quadratic.size]

theorem length_form_diagonal (f : Quadratic α) : f.matrix.diagonal.length = f.size := by
  rw [Sparse.length_diagonal, f.square, Nat.min_self]
  rfl

/-- There is an estimate at zero and one at one for every variable. -/
theorem flips_lengths {context : Context α} {node : Node α} {estimates : Flips α}
    (h : flips context node = .ok estimates) :
    estimates.zero.length = context.size ∧ estimates.one.length = context.size := by
  obtain ⟨x, -, hx⟩ := bind_eq_ok_iff.1 h
  by_cases hlength : x.length = context.size
  · rw [if_pos hlength] at hx
    obtain rfl := Except.ok.inj hx
    have hd := length_form_diagonal context.form
    have hc := length_crossTerms context.form x
    have steps (step : α → α) : (x.map step).length = context.form.size := by
      rw [List.length_map]
      exact hlength
    exact ⟨length_changes (steps _) hd hc, length_changes (steps _) hd hc⟩
  · rw [if_neg hlength] at hx
    cases hx

end Lengths

theorem changes_getElem? {steps diagonal cross : List Rat} {n i : Nat} (hs : steps.length = n)
    (hd : diagonal.length = n) (hc : cross.length = n) (hi : i < n) :
    (changes steps diagonal cross)[i]?
      = some (change (steps.getD i 0) (diagonal.getD i 0) (cross.getD i 0)) := by
  simp [changes, List.getD_eq_getElem?_getD, hs, hd, hc, hi]

variable (f : Quadratic Rat)

theorem getD_crossTerms (x : List Rat) {i : Nat} (hi : i < f.size) :
    (crossTerms f x).getD i 0 = ∑ j ∈ range f.size, f.matrix.cell i j * x.getD j 0
      + ∑ k ∈ range f.size, f.matrix.cell k i * x.getD k 0 + 2 * f.linear.getD i 0 := by
  have hw : i < f.matrix.width := by rw [f.square]; exact hi
  have products : (f.matrix.times x).length = (f.matrix.timesTransposed x).length := by
    rw [Sparse.length_times, Sparse.length_timesTransposed, f.square]
  have both : (Summation.addEach (f.matrix.times x) (f.matrix.timesTransposed x)).length
      = (f.linear.map (Scalar.two * ·)).length := by
    simp [Summation.addEach, Sparse.length_times, Sparse.length_timesTransposed, f.square, f.fits]
  have doubled : (f.linear.map (Scalar.two * ·)).getD i 0 = 2 * f.linear.getD i 0 := by
    have hl : i < f.linear.length := by rw [f.fits]; exact hi
    simp [List.getD_eq_getElem?_getD, hl, two_rational]
  rw [crossTerms, Summation.getD_addEach both, Summation.getD_addEach products, doubled,
    Sparse.getD_times, Sparse.getD_timesTransposed f.matrix x hw, f.square]
  rfl

/-- The estimate for a step along one variable is what the form changes by. -/
theorem change_exact {x steps : List Rat} (hx : x.length = f.size) (hs : steps.length = f.size)
    {i : Nat} (hi : i < f.size) {v : Rat} (hv : steps.getD i 0 = v - x.getD i 0) :
    (changes steps f.matrix.diagonal (crossTerms f x))[i]?
      = some (f.value (x.set i v) - f.value x) := by
  have hw : i < f.matrix.width := by rw [f.square]; exact hi
  rw [changes_getElem? hs (length_form_diagonal f) (length_crossTerms f x) hi,
    f.value_set_sub hx hi, change, hv, Sparse.getD_diagonal f.matrix hi hw, getD_crossTerms f x hi,
    half_rational]

/-- **Estimated changes are exact.** At the point of a node both estimates of a variable, fixed or
not, are differences of values of the form: with the variable at zero or at one, less the value at
the point. The matrix may be asymmetric, and its entries in any order, repeated or zero. -/
theorem flips_exact (context : Context Rat) (node : Node Rat)
    (hlong : context.size ≤ node.solution.length)
    (hfit : ∀ k ∈ node.fixed.indices, -context.size ≤ k ∧ k < context.size) :
    ∃ x estimates, node.base context.size = .ok x ∧ flips context node = .ok estimates ∧
      estimates.zero.length = context.size ∧ estimates.one.length = context.size ∧
      ∀ i < context.size, ∃ here zero one, context.form.evaluate x = .ok here ∧
        context.form.evaluate (x.set i 0) = .ok zero ∧
        context.form.evaluate (x.set i 1) = .ok one ∧
        estimates.zero[i]? = some (zero - here) ∧ estimates.one[i]? = some (one - here) := by
  obtain ⟨x, hbase, hx⟩ := node.base_succeeds hlong hfit
  have hflips : flips context node = .ok (flipsAt context.form x) :=
    bind_eq_ok_iff.2 ⟨x, hbase, if_pos hx⟩
  have hdown : (x.map (- ·)).length = context.form.size := by rw [List.length_map]; exact hx
  have hup : (x.map (1 - ·)).length = context.form.size := by rw [List.length_map]; exact hx
  have hd := length_form_diagonal context.form
  have hc := length_crossTerms context.form x
  refine ⟨x, flipsAt context.form x, hbase, hflips, length_changes hdown hd hc,
    length_changes hup hd hc, fun i hi => ?_⟩
  have hlt : i < x.length := by rwa [hx]
  have evaluated (y : List Rat) (hy : y.length = context.form.size) :
      context.form.evaluate y = .ok (context.form.value y) := if_pos hy
  refine ⟨_, _, _, evaluated x hx, evaluated _ (by rw [List.length_set]; exact hx),
    evaluated _ (by rw [List.length_set]; exact hx), ?_, ?_⟩
  · apply change_exact context.form hx hdown hi
    simp [List.getD_eq_getElem?_getD, hlt]
  · apply change_exact context.form hx hup hi
    simp [List.getD_eq_getElem?_getD, hlt]

/-- An asymmetric matrix with an unsorted line, a repeated entry and a zero. -/
def tangledContext : Context Rat where
  form := ⟨⟨2, [[(1, 3), (0, 2), (1, -1)], [(0, 5), (1, 0)]], by decide⟩, [1, -2], rfl, rfl⟩
  strategy := .known .worstApproximation
  seed := .integer 0
  visited := .integer 0

/-- The first variable is fixed, by its index from the end, to what is no binary value. -/
def tangledNode : Node Rat := ⟨none, [1 / 2, 1 / 3, 7], ⟨[(-2, 3)], by decide⟩⟩

theorem flips_tangled :
    tangledContext.size ≤ tangledNode.solution.length ∧
    (∀ k ∈ tangledNode.fixed.indices, -tangledContext.size ≤ k ∧ k < tangledContext.size) ∧
    ∃ x estimates here one, tangledNode.base 2 = .ok x ∧
      flips tangledContext tangledNode = .ok estimates ∧
      tangledContext.form.evaluate x = .ok here ∧
      tangledContext.form.evaluate (x.set 0 1) = .ok one ∧
      estimates.one[0]? = some (one - here) := by
  have hlong : tangledContext.size ≤ tangledNode.solution.length := by decide
  have hfit : ∀ k ∈ tangledNode.fixed.indices,
      -tangledContext.size ≤ k ∧ k < tangledContext.size := by decide
  obtain ⟨x, estimates, hbase, hflips, -, -, exact⟩ :=
    flips_exact tangledContext tangledNode hlong hfit
  obtain ⟨here, zero, one, hhere, -, hone, -, hdelta⟩ := exact 0 (by decide)
  exact ⟨hlong, hfit, x, estimates, here, one, hbase, hflips, hhere, hone, hdelta⟩

end Branching

end BinaryQuadratic
