import Mathlib.Order.Bounds.Basic
import BinaryQuadratic.Proofs.Comparisons
import BinaryQuadratic.Proofs.Storage

/-!
# Best common values

With one value for all variables a form is a parabola. Whatever way it opens, its minimum on the
unit interval is found, at the lower end when there are several.

* `LeastAt`: where `½at² + bt` is least on `[0, 1]`;
* `slope_bestScalar`, `parabola_growth`: the first order condition of a parabola that opens upwards,
  and how fast it rises from its minimum;
* `chord_le`: any other parabola lies above its chord;
* `isLeast_bestScalar`, `leastAt_tied_iff`: the first minimum, and when there is another;
* `evaluate_common`, `commonMinimum_iff`: a form with one value for all variables is a parabola of
  two sums, `alpha_eq_bestScalar` finds its minimum;
* `DiagonalPart`, `diagonalForm`: a form whose matrix is the diagonal of another's;
* `bestScalar?`, `bestScalar?_eq`: no division by zero, among numbers that round as well;
* `common_values_least`: both best common values.
-/

namespace BinaryQuadratic

open Finset

namespace Quadratic

section Parabola

variable {a b s t : Rat}

def parabola (a b t : Rat) : Rat := 1 / 2 * a * t ^ 2 + b * t

/-- A place in `[0, 1]` where the parabola is not above any other place there. -/
structure LeastAt (a b t : Rat) : Prop where
  nonneg : 0 ≤ t
  le_one : t ≤ 1
  le : ∀ s, 0 ≤ s → s ≤ 1 → parabola a b t ≤ parabola a b s

@[simp]
theorem parabola_zero (a b : Rat) : parabola a b 0 = 0 := by
  unfold parabola
  ring

@[simp]
theorem parabola_one (a b : Rat) : parabola a b 1 = 1 / 2 * a + b := by
  unfold parabola
  ring

theorem clip_mem (t : Rat) : 0 ≤ clip t ∧ clip t ≤ 1 := by
  unfold clip
  split
  · exact ⟨le_rfl, zero_le_one⟩
  · split
    · exact ⟨zero_le_one, le_rfl⟩
    · exact ⟨not_lt.1 ‹_›, not_lt.1 ‹_›⟩

theorem bestScalar_of_pos (h : 0 < a) : bestScalar a b = clip (-b / a) := if_pos h

theorem bestScalar_of_nonpos (h : a ≤ 0) :
    bestScalar a b = if 1 / 2 * a + b < 0 then 1 else 0 := by
  rw [bestScalar, if_neg h.not_gt, half_rational]

theorem bestScalar_mem (a b : Rat) : 0 ≤ bestScalar a b ∧ bestScalar a b ≤ 1 := by
  rcases lt_or_ge 0 a with h | h
  · rw [bestScalar_of_pos h]
    exact clip_mem _
  · rw [bestScalar_of_nonpos h]
    split
    · exact ⟨zero_le_one, le_rfl⟩
    · exact ⟨le_rfl, zero_le_one⟩

/-- Going into the interval from the clipped vertex leads upwards. -/
theorem slope_bestScalar (ha : 0 < a) (hs : 0 ≤ s) (hs' : s ≤ 1) :
    0 ≤ (a * bestScalar a b + b) * (s - bestScalar a b) := by
  have vertex : a * (-b / a) = -b := mul_div_cancel₀ _ ha.ne'
  rw [bestScalar_of_pos ha, clip]
  split
  case isTrue hleft =>
    -- The vertex lies to the left: the parabola rises at zero already.
    have rising := mul_neg_of_pos_of_neg ha hleft
    rw [vertex] at rising
    exact mul_nonneg (by linarith) (by linarith)
  case isFalse =>
    split
    case isTrue hright =>
      -- The vertex lies to the right: the parabola still falls at one.
      have falling := mul_lt_mul_of_pos_left hright ha
      rw [vertex] at falling
      exact mul_nonneg_of_nonpos_of_nonpos (by linarith) (by linarith)
    case isFalse => rw [vertex, neg_add_cancel, zero_mul]

/-- A parabola that opens upwards rises from its minimum at least with the distance squared. -/
theorem parabola_growth (ha : 0 < a) (hs : 0 ≤ s) (hs' : s ≤ 1) :
    parabola a b (bestScalar a b) + 1 / 2 * a * (s - bestScalar a b) ^ 2 ≤ parabola a b s := by
  have slope := slope_bestScalar (b := b) ha hs hs'
  have expansion (t : Rat) :
      parabola a b s = parabola a b t + (a * t + b) * (s - t) + 1 / 2 * a * (s - t) ^ 2 := by
    unfold parabola
    ring
  rw [expansion (bestScalar a b)]
  linarith

/-- A parabola that does not open upwards lies above its chord from zero to one. -/
theorem chord_le (ha : a ≤ 0) (hs : 0 ≤ s) (hs' : s ≤ 1) :
    s * (1 / 2 * a + b) ≤ parabola a b s := by
  have above : 0 ≤ -a * (s * (1 - s)) :=
    mul_nonneg (neg_nonneg.2 ha) (mul_nonneg hs (sub_nonneg.2 hs'))
  have apart : parabola a b s = s * (1 / 2 * a + b) + 1 / 2 * (-a * (s * (1 - s))) := by
    unfold parabola
    ring
  rw [apart]
  linarith

theorem leastAt_bestScalar (a b : Rat) : LeastAt a b (bestScalar a b) := by
  obtain ⟨nonneg, le_one⟩ := bestScalar_mem a b
  refine ⟨nonneg, le_one, fun s hs hs' => ?_⟩
  rcases lt_or_ge 0 a with ha | ha
  · have rise := parabola_growth (b := b) ha hs hs'
    have : 0 ≤ 1 / 2 * a * (s - bestScalar a b) ^ 2 := by positivity
    linarith
  · have above := chord_le (b := b) ha hs hs'
    rw [bestScalar_of_nonpos ha]
    split
    case isTrue hneg =>
      rw [parabola_one]
      exact (le_mul_of_le_one_left hneg.le hs').trans above
    case isFalse hpos =>
      rw [parabola_zero]
      exact (mul_nonneg hs (not_lt.1 hpos)).trans above

/-- There is one minimum, unless the parabola does not open upwards and ends at one height. -/
theorem LeastAt.eq_bestScalar (h : LeastAt a b t) (hone : 0 < a ∨ 1 / 2 * a + b ≠ 0) :
    t = bestScalar a b := by
  obtain ⟨nonneg, le_one⟩ := bestScalar_mem a b
  have lowest := h.le (bestScalar a b) nonneg le_one
  rcases lt_or_ge 0 a with ha | ha
  · have rise := parabola_growth (b := b) ha h.nonneg h.le_one
    have level : 1 / 2 * a * (t - bestScalar a b) ^ 2 ≤ 0 := by linarith
    exact sub_eq_zero.1 (sq_nonpos_iff _ |>.1 (nonpos_of_mul_nonpos_right level (by positivity)))
  · have hends := hone.resolve_left ha.not_gt
    have above := chord_le (b := b) ha h.nonneg h.le_one
    rw [bestScalar_of_nonpos ha] at lowest ⊢
    -- Between the ends the chord, and so the parabola, is above the lower one.
    rcases lt_or_gt_of_ne hends with hneg | hpos
    · rw [if_pos hneg, parabola_one] at lowest
      rw [if_pos hneg]
      have : 1 ≤ t := by nlinarith [above.trans lowest]
      exact le_antisymm h.le_one this
    · rw [if_neg hpos.not_gt, parabola_zero] at lowest
      rw [if_neg hpos.not_gt]
      have : t ≤ 0 := nonpos_of_mul_nonpos_left (above.trans lowest) hpos
      exact le_antisymm this h.nonneg

theorem bestScalar_of_tied (ha : a ≤ 0) (hends : 1 / 2 * a + b = 0) : bestScalar a b = 0 := by
  rw [bestScalar_of_nonpos ha, if_neg hends.not_lt]

/-- No minimum comes before the one that is found. -/
theorem isLeast_bestScalar (a b : Rat) : IsLeast {t | LeastAt a b t} (bestScalar a b) := by
  refine ⟨leastAt_bestScalar a b, fun t ht => ?_⟩
  by_cases hone : 0 < a ∨ 1 / 2 * a + b ≠ 0
  · exact (ht.eq_bestScalar hone).ge
  · rw [not_or, not_lt, not_not] at hone
    rw [bestScalar_of_tied hone.1 hone.2]
    exact ht.nonneg

/-- Several places are least just when the parabola does not open upwards and its ends are level;
then both ends are among them. -/
theorem leastAt_tied_iff (a b : Rat) :
    (∃ s t, s ≠ t ∧ LeastAt a b s ∧ LeastAt a b t) ↔ a ≤ 0 ∧ 1 / 2 * a + b = 0 := by
  constructor
  · rintro ⟨s, t, hne, hs, ht⟩
    by_contra hone
    rw [not_and_or, not_le] at hone
    exact hne ((hs.eq_bestScalar hone).trans (ht.eq_bestScalar hone).symm)
  · rintro ⟨ha, hends⟩
    have zero : LeastAt a b 0 := bestScalar_of_tied ha hends ▸ leastAt_bestScalar a b
    refine ⟨0, 1, zero_ne_one, zero, zero_le_one, le_rfl, fun s hs hs' => ?_⟩
    rw [parabola_one, hends]
    exact (parabola_zero a b).ge.trans (zero.le s hs hs')

end Parabola

section Division

variable {α : Type} [Scalar α]

def divide? (a b : α) : Option α := if Scalar.agree b 0 then none else some (a / b)

def bestScalar? (a b : α) : Option α :=
  if 0 < a then (divide? (-b) a).map clip
  else some (if Scalar.half * a + b < 0 then 1 else 0)

def alpha? (f : Quadratic α) : Option α :=
  bestScalar? (Summation.balanced f.merged.matrix.values) (Summation.balanced f.linear)

def rho? (f : Quadratic α) : Option α :=
  bestScalar? (Summation.balanced f.matrix.diagonal) (Summation.balanced f.linear)

variable [Scalar.Ordered α]

theorem divide?_of_pos {a b : α} (h : 0 < b) : divide? a b = some (a / b) := by
  have hzero : Scalar.agree b 0 = false := by
    rw [Scalar.agree, decide_eq_false (Scalar.Ordered.lt_iff.1 h).2, Bool.false_and]
  rw [divide?, hzero]
  rfl

/-- A division is made above zero only, so none is refused. -/
theorem bestScalar?_eq (a b : α) : bestScalar? a b = some (bestScalar a b) := by
  unfold bestScalar? bestScalar
  split
  case isTrue h => rw [divide?_of_pos h, Option.map_some]
  case isFalse => rfl

theorem alpha?_eq (f : Quadratic α) : f.alpha? = some f.alpha := bestScalar?_eq _ _

theorem rho?_eq (f : Quadratic α) : f.rho? = some f.rho := bestScalar?_eq _ _

end Division

theorem sum_getD (xs : List Rat) : ∑ i ∈ range xs.length, xs.getD i 0 = xs.sum := by
  induction xs with
  | nil => rfl
  | cons x xs ih =>
    rw [List.length_cons, sum_range_succ', List.sum_cons, ← ih, add_comm]
    rfl

section Common

def common {α : Type} (f : Quadratic α) (t : α) : List α := List.replicate f.size t

/-- A common value in `[0, 1]` at which the form is not above any other common value there. -/
structure CommonMinimum (f : Quadratic Rat) (t : Rat) : Prop where
  nonneg : 0 ≤ t
  le_one : t ≤ 1
  le : ∀ s, 0 ≤ s → s ≤ 1 → ∃ here there, f.evaluate (f.common t) = .ok here ∧
    f.evaluate (f.common s) = .ok there ∧ here ≤ there

/-- The matrix does not add up to more than zero, and all variables at zero are as good as all at
one. -/
structure LevelEnds (f : Quadratic Rat) : Prop where
  nonpos : f.matrix.values.sum ≤ 0
  level : f.evaluate (f.common 0) = f.evaluate (f.common 1)

/-- The matrix of the second form is the diagonal of that of the first, and the linear part is the
same. -/
structure DiagonalPart (f g : Quadratic Rat) : Prop where
  linear : g.linear = f.linear
  cells : ∀ i < f.size, ∀ j < f.size,
    g.matrix.cell i j = if i = j then f.matrix.cell i i else 0

/-- Only the diagonal is kept, with one entry in each row. -/
def diagonalForm (f : Quadratic Rat) : Quadratic Rat where
  matrix :=
    { width := f.size
      lines := (List.range f.size).map fun i => [(i, f.matrix.cell i i)]
      bounded := by
        intro line hline entry hentry
        obtain ⟨i, hi, rfl⟩ := List.mem_map.1 hline
        obtain rfl := List.mem_singleton.1 hentry
        exact List.mem_range.1 hi }
  linear := f.linear
  square := by rw [Sparse.height, List.length_map, List.length_range]
  fits := by rw [Sparse.height, List.length_map, List.length_range]; exact f.fits

variable {f g : Quadratic Rat} {t : Rat}

theorem sum_stored (f : Quadratic Rat) : f.matrix.values.sum
    = ∑ i ∈ range f.size, ∑ j ∈ range f.size, f.matrix.cell i j := by
  rw [Sparse.sum_values, f.square]
  rfl

/-- With one value for all variables, only the sums of the matrix and of the linear part count. -/
theorem evaluate_common (f : Quadratic Rat) (t : Rat) : f.evaluate (f.common t)
    = .ok (parabola f.matrix.values.sum f.linear.sum t) := by
  have hlength : (f.common t).length = f.size := List.length_replicate
  have entry {i : Nat} (hi : i ∈ range f.size) : (f.common t).getD i 0 = t :=
    List.getD_replicate _ (mem_range.1 hi)
  have products : ∑ i ∈ range f.size, (f.common t).getD i 0 *
        ∑ j ∈ range f.size, f.matrix.cell i j * (f.common t).getD j 0
      = t ^ 2 * f.matrix.values.sum := by
    rw [sum_stored, mul_sum]
    refine sum_congr rfl fun i hi => ?_
    rw [entry hi, sum_congr rfl fun j hj => by rw [entry hj], ← sum_mul]
    ring
  have linear : ∑ i ∈ range f.size, f.linear.getD i 0 * (f.common t).getD i 0
      = f.linear.sum * t := by
    rw [sum_congr rfl fun i hi => by rw [entry hi], ← sum_mul, ← sum_getD, f.fits]
    rfl
  rw [evaluate, if_pos hlength, f.value_eq_sum hlength, products, linear, parabola]
  congr 1
  ring

/-- A best common value is where the parabola of the two sums is least. -/
theorem commonMinimum_iff :
    f.CommonMinimum t ↔ LeastAt f.matrix.values.sum f.linear.sum t := by
  constructor
  · rintro ⟨nonneg, le_one, least⟩
    refine ⟨nonneg, le_one, fun s hs hs' => ?_⟩
    obtain ⟨here, there, hhere, hthere, hle⟩ := least s hs hs'
    rw [evaluate_common] at hhere hthere
    cases hhere
    cases hthere
    exact hle
  · rintro ⟨nonneg, le_one, least⟩
    exact ⟨nonneg, le_one, fun s hs hs' =>
      ⟨_, _, f.evaluate_common t, f.evaluate_common s, least s hs hs'⟩⟩

theorem levelEnds_iff : f.LevelEnds ↔
    f.matrix.values.sum ≤ 0 ∧ 1 / 2 * f.matrix.values.sum + f.linear.sum = 0 := by
  have ends : f.evaluate (f.common 0) = f.evaluate (f.common 1) ↔
      1 / 2 * f.matrix.values.sum + f.linear.sum = 0 := by
    rw [evaluate_common, evaluate_common, Except.ok.injEq, parabola_zero, parabola_one, eq_comm]
  rw [← ends]
  exact ⟨fun h => ⟨h.nonpos, h.level⟩, fun h => ⟨h.1, h.2⟩⟩

theorem alpha_eq_bestScalar (f : Quadratic Rat) :
    f.alpha = bestScalar f.matrix.values.sum f.linear.sum := by
  rw [alpha_eq, sum_stored]

theorem isLeast_alpha (f : Quadratic Rat) : IsLeast {t | f.CommonMinimum t} f.alpha := by
  have same : {t | f.CommonMinimum t} = {t | LeastAt f.matrix.values.sum f.linear.sum t} :=
    Set.ext fun _ => commonMinimum_iff
  rw [same, alpha_eq_bestScalar]
  exact isLeast_bestScalar _ _

theorem commonMinimum_tied_iff :
    (∃ s t, s ≠ t ∧ f.CommonMinimum s ∧ f.CommonMinimum t) ↔ f.LevelEnds := by
  simp only [commonMinimum_iff, levelEnds_iff]
  exact leastAt_tied_iff _ _

theorem alpha_of_levelEnds (h : f.LevelEnds) : f.alpha = 0 := by
  obtain ⟨nonpos, level⟩ := levelEnds_iff.1 h
  rw [alpha_eq_bestScalar, bestScalar_of_tied nonpos level]

/-- All that such a form stores is what the diagonal adds up to. -/
theorem DiagonalPart.alpha (h : DiagonalPart f g) : g.alpha = f.rho := by
  have diagonal : f.matrix.diagonal.sum = ∑ i ∈ range f.size, f.matrix.cell i i := by
    rw [← sum_getD, f.matrix.length_diagonal, f.square, Nat.min_self]
    exact sum_congr rfl fun i hi => f.matrix.getD_diagonal (mem_range.1 hi)
      (f.square ▸ mem_range.1 hi)
  have cells : ∑ i ∈ range g.size, ∑ j ∈ range g.size, g.matrix.cell i j
      = ∑ i ∈ range f.size, f.matrix.cell i i := by
    rw [size_of_linear h.linear]
    refine sum_congr rfl fun i hi => ?_
    rw [sum_congr rfl fun j hj => h.cells i (mem_range.1 hi) j (mem_range.1 hj), sum_ite_eq,
      if_pos hi]
  rw [g.alpha_eq, cells, ← diagonal, h.linear, rho, Summation.balanced_eq_sum,
    Summation.balanced_eq_sum]

theorem diagonalPart_diagonalForm (f : Quadratic Rat) : DiagonalPart f f.diagonalForm where
  linear := rfl
  cells i hi j _ := by
    have row : f.diagonalForm.matrix.line i = [(i, f.matrix.cell i i)] := by
      simp [Sparse.line, diagonalForm, hi]
    rw [Sparse.cell, row, Sparse.entryAt_cons]
    exact add_zero _

/-- **Both best common values are first minima.** For a form of any size and storage, whatever way
its parabola opens, `alpha` lies in `[0, 1]`, no other common value there is better, and none that
is as good is smaller. Several are equally good just when the matrix adds up to at most zero and the
ends of the interval are level, and then `alpha` is zero. The diagonal of the matrix and the linear
part make a form; `rho` is `alpha` of every such form, in whatever way it is stored, and so the best
common value there. Neither divides by zero. -/
theorem common_values_least (f : Quadratic Rat) :
    (IsLeast {t | f.CommonMinimum t} f.alpha ∧
      ((∃ s t, s ≠ t ∧ f.CommonMinimum s ∧ f.CommonMinimum t) ↔ f.LevelEnds) ∧
      (f.LevelEnds → f.alpha = 0)) ∧
    ((∃ g, DiagonalPart f g) ∧
      ∀ g, DiagonalPart f g → f.rho = g.alpha ∧ IsLeast {t | g.CommonMinimum t} f.rho ∧
        ((∃ s t, s ≠ t ∧ g.CommonMinimum s ∧ g.CommonMinimum t) → f.rho = 0)) ∧
    f.alpha? = some f.alpha ∧ f.rho? = some f.rho := by
  refine ⟨⟨f.isLeast_alpha, commonMinimum_tied_iff, alpha_of_levelEnds⟩,
    ⟨⟨_, f.diagonalPart_diagonalForm⟩, fun g hg => ?_⟩, alpha?_eq f, rho?_eq f⟩
  rw [← hg.alpha]
  exact ⟨rfl, g.isLeast_alpha, fun tied => alpha_of_levelEnds (commonMinimum_tied_iff.1 tied)⟩

/-- All variables at zero are as good as all at one; entries are repeated, zero, and on one side. -/
def levelForm : Quadratic Rat :=
  ⟨⟨2, [[(1, 3), (0, -2), (1, -2)], [(1, -4), (0, 0)]], by decide⟩, [1, 3 / 2], rfl, rfl⟩

theorem common_values_least_level : levelForm.LevelEnds ∧
    DiagonalPart levelForm levelForm.diagonalForm ∧
    levelForm.CommonMinimum 0 ∧ levelForm.alpha = 0 ∧
    levelForm.rho = levelForm.diagonalForm.alpha ∧
    levelForm.diagonalForm.CommonMinimum levelForm.rho := by
  have level : levelForm.LevelEnds := levelEnds_iff.2 ⟨by decide +kernel, by decide +kernel⟩
  have diagonal := levelForm.diagonalPart_diagonalForm
  obtain ⟨⟨⟨least, -⟩, -, first⟩, ⟨-, kept⟩, -⟩ := common_values_least levelForm
  obtain ⟨same, ⟨leastThere, -⟩, -⟩ := kept _ diagonal
  have zero : levelForm.alpha = 0 := first level
  refine ⟨level, diagonal, ?_, zero, same, leastThere⟩
  rw [zero] at least
  exact least

end Common

end Quadratic

end BinaryQuadratic
