import BinaryQuadratic.Proofs.Products
import BinaryQuadratic.Relaxation.Program

/-!
# A form by its columns

* `line_regroup`: what the new lines hold;
* `valuesAt_regroup`, `regroup_cell`: regrouping keeps every cell, with its repeated entries in
  their order;
* `objective_ofForm`: over the rationals the program of a form has the form's values.
-/

namespace BinaryQuadratic

namespace Sparse

section Regroup

variable {α : Type}

theorem getD_foldl_append {j : Nat} (es : List (Entry α)) (lines : List (List (Nat × α)))
    (hj : j < lines.length) :
    (es.foldl append lines).getD j [] = lines.getD j [] ++
      (es.filter fun e => e.position = j).map fun e => (e.line, e.value) := by
  induction es generalizing lines with
  | nil => simp
  | cons e es ih =>
    rw [List.foldl_cons, ih _ (by rwa [length_append])]
    have hline : (append lines e).getD j [] =
        lines.getD j [] ++ if e.position = j then [(e.line, e.value)] else [] := by
      simp only [append, List.getD_eq_getElem?_getD, List.getElem?_modify,
        List.getElem?_eq_getElem hj]
      by_cases h : e.position = j <;> simp [h]
    rw [hline, List.filter_cons, List.append_assoc]
    by_cases h : e.position = j <;> simp [h]

theorem number_line_le {first : Nat} {lines : List (List (Nat × α))} {e : Entry α}
    (h : e ∈ number first lines) : first ≤ e.line := by
  induction lines generalizing first with
  | nil => simp [number] at h
  | cons line rest ih =>
    simp only [number, List.mem_append, List.mem_map] at h
    rcases h with ⟨_, _, rfl⟩ | h
    · exact Nat.le_refl _
    · have := ih h
      omega

/-- What is stored at one position of one line, in storage order. -/
theorem values_number (lines : List (List (Nat × α))) (first i j : Nat) :
    (((number first lines).filter fun e => e.position = j).filter fun e =>
        e.line = first + i).map Entry.value
      = ((lines.getD i []).filter fun e => e.1 = j).map Prod.snd := by
  induction lines generalizing first i with
  | nil => simp [number]
  | cons line rest ih =>
    rw [number, List.filter_append, List.filter_append, List.map_append]
    have own (k : Nat) : (((line.map fun e => (⟨first, e.1, e.2⟩ : Entry α)).filter fun e =>
        e.position = j).filter fun e => e.line = k).map Entry.value
          = if first = k then (line.filter fun e => e.1 = j).map Prod.snd else [] := by
      rw [List.filter_map, List.filter_map, List.map_map]
      by_cases h : first = k <;> simp [Function.comp_def, h]
    rw [own]
    cases i with
    | zero =>
      have later : ((number (first + 1) rest).filter fun e => e.position = j).filter
          (fun e => e.line = first + 0) = [] := by
        apply List.filter_eq_nil_iff.2
        intro e he
        have := number_line_le (List.mem_filter.1 he).1
        simp only [decide_eq_true_eq]
        omega
      rw [later, if_pos (Nat.add_zero first).symm]
      simp
    | succ i =>
      have shifted : first + (i + 1) = first + 1 + i := by omega
      rw [if_neg (by omega), shifted, ih (first + 1) i, List.getD_cons_succ]
      rfl

theorem mem_number {first : Nat} {lines : List (List (Nat × α))} {e : Entry α}
    (h : e ∈ number first lines) : ∃ line ∈ lines, (e.position, e.value) ∈ line := by
  induction lines generalizing first with
  | nil => simp [number] at h
  | cons line rest ih =>
    simp only [number, List.mem_append, List.mem_map] at h
    rcases h with ⟨e', he', rfl⟩ | h
    · exact ⟨line, List.mem_cons_self, he'⟩
    · obtain ⟨line', hline', hmem⟩ := ih h
      exact ⟨line', List.mem_cons_of_mem _ hline', hmem⟩

theorem entries_position_lt {m : Sparse α} {e : Entry α} (h : e ∈ m.entries) :
    e.position < m.width := by
  obtain ⟨line, hline, hmem⟩ := mem_number h
  exact m.bounded line hline _ hmem

/-- A new line holds the entries of its position in storage order. -/
theorem line_regroup (m : Sparse α) (j : Nat) : m.regroup.line j =
    (m.entries.filter fun e => e.position = j).map fun e => (e.line, e.value) := by
  by_cases hj : j < m.width
  · unfold line regroup
    rw [getD_foldl_append m.entries _ (by simpa using hj)]
    simp [hj]
  · have hnone : (m.entries.filter fun e => e.position = j) = [] := by
      rw [List.filter_eq_nil_iff]
      intro e he
      have := entries_position_lt he
      simp only [decide_eq_true_eq]
      omega
    have hbeyond : m.regroup.lines.length ≤ j := by
      have : m.regroup.lines.length = m.width := m.regroup_height
      omega
    rw [hnone, line, List.getD_eq_getElem?_getD, List.getElem?_eq_none hbeyond]
    rfl

/-- The values stored at one position of a line, in storage order. -/
def valuesAt (line : List (Nat × α)) (j : Nat) : List α :=
  (line.filter fun e => e.1 = j).map Prod.snd

/-- Repeated entries keep their order. -/
theorem valuesAt_regroup (m : Sparse α) (j i : Nat) :
    valuesAt (m.regroup.line j) i = valuesAt (m.line i) j := by
  have hvalues := values_number m.lines 0 i j
  simp only [Nat.zero_add] at hvalues
  unfold valuesAt
  rw [line_regroup, List.filter_map, List.map_map]
  exact hvalues

/-- A regrouped matrix has the same cells. -/
theorem regroup_cell [Scalar α] (m : Sparse α) (j i : Nat) : m.regroup.cell j i = m.cell i j :=
  congrArg Summation.running (m.valuesAt_regroup j i)

end Regroup

end Sparse

namespace Program

open Finset

theorem getD_map_range (g : Nat → Rat) {n i : Nat} (hi : i < n) :
    ((List.range n).map g).getD i 0 = g i := by
  simp [List.getD_eq_getElem?_getD, hi]

/-- The full matrix of a program is that of the rows its columns were made from. -/
theorem dense_regroup {α : Type} [Scalar α] (m : Sparse α) (linear : List α) :
    dense ⟨m.regroup, linear⟩ =
      (List.range m.height).map fun i => (List.range m.width).map fun j => m.cell i j := by
  unfold dense
  rw [Sparse.regroup_height]
  exact List.map_congr_left fun i _ => List.map_congr_left fun j _ => m.regroup_cell j i

theorem dense_ofForm (f : Quadratic Rat) : (ofForm f).dense =
    (List.range f.size).map fun i => (List.range f.size).map fun j => f.matrix.cell i j := by
  rw [ofForm, dense_regroup, f.square]
  rfl

/-- The value of a program by the cells of the form's matrix, at a point of any length. -/
theorem objective_eq_sum (f : Quadratic Rat) (x : List Rat) :
    (ofForm f).objective x = 1 / 2 * ∑ i ∈ range f.size, x.getD i 0 *
        ∑ j ∈ range f.size, f.matrix.cell i j * x.getD j 0
      + ∑ i ∈ range f.size, f.linear.getD i 0 * x.getD i 0 := by
  have hrow (i : Nat) : Summation.dot ((List.range f.size).map fun j => f.matrix.cell i j) x
      = ∑ j ∈ range f.size, f.matrix.cell i j * x.getD j 0 := by
    have hshort : min ((List.range f.size).map fun j => f.matrix.cell i j).length x.length
        ≤ f.size := by simp
    rw [Summation.dot_eq_sum_of_le hshort]
    refine sum_congr rfl fun j hj => ?_
    rw [getD_map_range _ (mem_range.1 hj)]
  have hproducts : (ofForm f).dense.map (fun row => Summation.dot row x) =
      (List.range f.size).map fun i => ∑ j ∈ range f.size, f.matrix.cell i j * x.getD j 0 := by
    rw [dense_ofForm, List.map_map]
    exact List.map_congr_left fun i _ => hrow i
  have hlinear : (ofForm f).linear.length = f.size := f.fits
  unfold objective denseValue
  rw [hproducts, half_rational]
  congr 2
  · rw [Summation.dot_eq_sum_of_le (n := f.size) (by simp)]
    refine sum_congr rfl fun i hi => ?_
    rw [getD_map_range _ (mem_range.1 hi)]
  · exact Summation.dot_eq_sum_of_le (by omega)

/-- **Rows and columns agree.** The value of a form does not depend on its matrix being laid out for
a minimising routine. -/
theorem objective_ofForm (f : Quadratic Rat) {x : List Rat} (hx : x.length = f.size) :
    (ofForm f).objective x = f.value x :=
  (objective_eq_sum f x).trans (f.value_eq_sum hx).symm

end Program

end BinaryQuadratic
