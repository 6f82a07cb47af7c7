import Mathlib.Algebra.BigOperators.Group.Finset.Sigma
import Mathlib.Data.List.GetD
import Mathlib.Tactic.Linarith
import BinaryQuadratic.Proofs.Columns
import BinaryQuadratic.Proofs.Merging
import BinaryQuadratic.Proofs.StrongBranching
import BinaryQuadratic.Proofs.Totals

/-!
# Storage conventions

Forms over the rationals whose matrices have the same sum with their transposes, stored in whatever
way.

* `Quadratic.Alike`: such forms, with the same linear part;
* `sum_symmetric`: a double sum over a matrix and its transpose alike;
* `Alike.evaluateAt`, `Alike.alpha`, `Alike.rho`, `Alike.objective`, `Alike.flips`, `Alike.select`:
  what is read off one of them is read off the other;
* `storage_irrelevant`: all of this;
* `alike_merged`: merging leaves such a form.
-/

namespace BinaryQuadratic

open Finset

/-- A double sum depends only on what a matrix and its transpose add up to. -/
theorem sum_symmetric {n : Nat} {a b : Nat → Nat → Rat}
    (h : ∀ i < n, ∀ j < n, a i j + a j i = b i j + b j i) (x : Nat → Rat) :
    ∑ i ∈ range n, x i * ∑ j ∈ range n, a i j * x j
      = ∑ i ∈ range n, x i * ∑ j ∈ range n, b i j * x j := by
  have twice (m : Nat → Nat → Rat) : 2 * ∑ i ∈ range n, x i * ∑ j ∈ range n, m i j * x j
      = ∑ i ∈ range n, ∑ j ∈ range n, x i * ((m i j + m j i) * x j) := by
    have swapped : ∑ i ∈ range n, ∑ j ∈ range n, x i * (m j i * x j)
        = ∑ i ∈ range n, ∑ j ∈ range n, x i * (m i j * x j) := by
      rw [sum_comm]
      exact sum_congr rfl fun i _ => sum_congr rfl fun j _ => by ring
    simp only [add_mul, mul_add, sum_add_distrib, swapped, mul_sum, two_mul]
  have same : 2 * ∑ i ∈ range n, x i * ∑ j ∈ range n, a i j * x j
      = 2 * ∑ i ∈ range n, x i * ∑ j ∈ range n, b i j * x j := by
    rw [twice, twice]
    refine sum_congr rfl fun i hi => sum_congr rfl fun j hj => ?_
    rw [h i (mem_range.1 hi) j (mem_range.1 hj)]
  linarith

namespace Quadratic

theorem size_of_linear {f g : Quadratic Rat} (h : f.linear = g.linear) : f.size = g.size := by
  have := congrArg List.length h
  rwa [f.fits, g.fits] at this

/-- Forms with one linear part, whose matrices have one sum with their transposes. -/
structure Alike (f g : Quadratic Rat) : Prop where
  linear : f.linear = g.linear
  cells : ∀ i < f.size, ∀ j < f.size, f.matrix.cell i j + f.matrix.cell j i
    = g.matrix.cell i j + g.matrix.cell j i

theorem size_merged (f : Quadratic Rat) : f.merged.size = f.size := f.matrix.merged_height

/-- A form is told from its merged one by nothing but the storage. -/
theorem alike_merged (f : Quadratic Rat) : Alike f f.merged where
  linear := rfl
  cells i _ j _ := by
    change _ = f.matrix.merged.cell i j + f.matrix.merged.cell j i
    rw [Sparse.cell_merged, Sparse.cell_merged]

/-- The best common value weighs the sum of all cells against that of the linear part. -/
theorem alpha_eq (f : Quadratic Rat) :
    f.alpha = bestScalar (∑ i ∈ range f.size, ∑ j ∈ range f.size, f.matrix.cell i j)
      f.linear.sum := by
  have hheight : f.merged.matrix.height = f.size := f.matrix.merged_height
  have hwidth : f.merged.matrix.width = f.size := f.square
  rw [alpha, Summation.balanced_eq_sum, Summation.balanced_eq_sum, Sparse.sum_values, hheight,
    hwidth]
  simp only [merged, Sparse.cell_merged]

namespace Alike

variable {f g : Quadratic Rat} (h : Alike f g)

include h

theorem size : f.size = g.size := size_of_linear h.linear

theorem diagonal : f.matrix.diagonal = g.matrix.diagonal := by
  have hf : min f.matrix.height f.matrix.width = f.size := by rw [f.square, Nat.min_self]; rfl
  have hg : min g.matrix.height g.matrix.width = f.size := by
    rw [g.square, Nat.min_self]
    exact h.size.symm
  unfold Sparse.diagonal
  rw [hf, hg]
  refine List.map_congr_left fun i hi => ?_
  have hlt := List.mem_range.1 hi
  have := h.cells i hlt i hlt
  linarith

theorem evaluateAt (point : Point Rat) : f.evaluateAt point = g.evaluateAt point := by
  cases point with
  | scalar => rfl
  | vector x =>
    change f.evaluate x = g.evaluate x
    unfold evaluate
    rw [← h.size]
    by_cases hx : x.length = f.size
    · rw [if_pos hx, if_pos hx, f.value_eq_sum hx, g.value_eq_sum (h.size ▸ hx), ← h.size,
        sum_symmetric h.cells fun i => x.getD i 0, h.linear]
    · rw [if_neg hx, if_neg hx]
  | nested outer inner =>
    simp only [Quadratic.evaluateAt, h.size]
  | deep => rfl

theorem alpha : f.alpha = g.alpha := by
  have total := sum_symmetric h.cells fun _ => 1
  simp only [one_mul, mul_one] at total
  rw [f.alpha_eq, g.alpha_eq, ← h.size, total, h.linear]

theorem rho : f.rho = g.rho := by
  unfold Quadratic.rho
  rw [h.diagonal, h.linear]

theorem objective (x : List Rat) :
    (Program.ofForm f).objective x = (Program.ofForm g).objective x := by
  rw [Program.objective_eq_sum, Program.objective_eq_sum, ← h.size,
    sum_symmetric h.cells fun i => x.getD i 0, h.linear]

theorem crossTerms (x : List Rat) : Branching.crossTerms f x = Branching.crossTerms g x := by
  have hf := Branching.length_crossTerms f x
  have hg := Branching.length_crossTerms g x
  apply List.ext_getElem
  · rw [hf, hg, h.size]
  · intro i hi hi'
    have hlt : i < f.size := hf ▸ hi
    have here := Branching.getD_crossTerms f x hlt
    have there := Branching.getD_crossTerms g x (h.size ▸ hlt)
    have products : ∑ j ∈ range f.size, f.matrix.cell i j * x.getD j 0
          + ∑ k ∈ range f.size, f.matrix.cell k i * x.getD k 0
        = ∑ j ∈ range f.size, g.matrix.cell i j * x.getD j 0
          + ∑ k ∈ range f.size, g.matrix.cell k i * x.getD k 0 := by
      rw [← sum_add_distrib, ← sum_add_distrib]
      refine sum_congr rfl fun j hj => ?_
      rw [← add_mul, ← add_mul, h.cells i hlt j (mem_range.1 hj)]
    rw [List.getD_eq_getElem _ _ hi] at here
    rw [List.getD_eq_getElem _ _ hi'] at there
    rw [here, there, ← h.size, products, h.linear]

section Choices

variable (strategy : Choice) (seed visited : Plain) (node : Node Rat)

theorem flips : Branching.flips ⟨f, strategy, seed, visited⟩ node
    = Branching.flips ⟨g, strategy, seed, visited⟩ node := by
  have hflips (x : List Rat) : Branching.flipsAt f x = Branching.flipsAt g x := by
    simp only [Branching.flipsAt, h.diagonal, h.crossTerms]
  simp only [Branching.flips, Context.size, h.size, hflips]
  rfl

theorem run (known : Strategy) : Branching.run known ⟨f, strategy, seed, visited⟩ node
    = Branching.run known ⟨g, strategy, seed, visited⟩ node := by
  cases known with
  | firstNotFixed =>
    simp only [Branching.run, Branching.firstNotFixed, Context.size, h.size]
  | mostViolated =>
    simp only [Branching.run, Branching.mostViolated, Context.size, h.size]
  | random =>
    simp only [Branching.run, Branching.random, Context.size, Context.generator, h.size]
  | worstApproximation =>
    simp only [Branching.run, Branching.worstApproximation, Branching.byScore, Context.size, h.size,
      h.flips]
  | bestApproximation =>
    simp only [Branching.run, Branching.bestApproximation, Branching.byScore, Context.size, h.size,
      h.flips]

theorem select : Branching.select ⟨f, strategy, seed, visited⟩ node
    = Branching.select ⟨g, strategy, seed, visited⟩ node := by
  simp only [Branching.select, h.run]

end Choices

end Alike

/-- **Storage does not matter.** Forms whose matrices have the same sum with their transposes, be
they stored in full, as one triangle, in whatever order or in several parts, give the same answers:
values at points of any shape, both best common values, the objective of a relaxation, the estimated
changes at a node, and the choice of the variable to branch on. Failures are the same as well. -/
theorem storage_irrelevant {f g : Quadratic Rat} (h : Alike f g) :
    (∀ point, f.evaluateAt point = g.evaluateAt point) ∧ f.alpha = g.alpha ∧ f.rho = g.rho ∧
    (∀ x, (Program.ofForm f).objective x = (Program.ofForm g).objective x) ∧
    ∀ strategy seed visited node,
      Branching.flips ⟨f, strategy, seed, visited⟩ node
        = Branching.flips ⟨g, strategy, seed, visited⟩ node ∧
      Branching.select ⟨f, strategy, seed, visited⟩ node
        = Branching.select ⟨g, strategy, seed, visited⟩ node := by
  refine ⟨h.evaluateAt, h.alpha, h.rho, h.objective, ?_⟩
  intro strategy seed visited node
  exact ⟨h.flips strategy seed visited node, h.select strategy seed visited node⟩

def fullForm : Quadratic Rat :=
  ⟨⟨2, [[(0, 2), (1, 1)], [(0, 1), (1, 4)]], by decide⟩, [-1, 1 / 2], rfl, rfl⟩

/-- The same by its upper triangle, out of order, with a repeated entry and a zero. -/
def triangularForm : Quadratic Rat :=
  ⟨⟨2, [[(1, 3), (0, 2), (1, -1)], [(1, 4), (0, 0)]], by decide⟩, [-1, 1 / 2], rfl, rfl⟩

theorem storage_irrelevant_triangle : Alike fullForm triangularForm ∧
    fullForm.evaluate [1 / 4, 3 / 4] = triangularForm.evaluate [1 / 4, 3 / 4] ∧
    fullForm.alpha = triangularForm.alpha := by
  have alike : Alike fullForm triangularForm := ⟨rfl, by decide +kernel⟩
  obtain ⟨values, common, -⟩ := storage_irrelevant alike
  exact ⟨alike, values (.vector [1 / 4, 3 / 4]), common⟩

end Quadratic

end BinaryQuadratic
