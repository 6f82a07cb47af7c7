import BinaryQuadratic.Proofs.Columns
import BinaryQuadratic.Proofs.Merging
import BinaryQuadratic.Sparse.Compressed

/-!
# Columns for rows

A matrix of any shape and its other lines, whatever the entries are: unsorted, repeated or zero.

* `valuesAt_ext`, `valuesAt_mergeSort`: a sorted line is told by its values at every position, and
  stable sorting keeps these;
* `regroup_ascending`: the new lines are sorted;
* `regroup_perm`: they hold the same entries with line and position exchanged;
* `offsets_monotone`, `last_offset`, `cut_offsets`: what the offsets of a matrix say, and that with
  them positions and values are cut into its lines again;
* `regroup_regroup_line`: regrouping twice sorts every line stably;
* `regroup_exact`: all of this.
-/

namespace BinaryQuadratic

open LineOrder

variable {α : Type}

def Entry.flipped (e : Entry α) : Entry α := ⟨e.position, e.line, e.value⟩

namespace Sparse

section Lines

variable {line line' : List (Nat × α)}

theorem valuesAt_cons (e : Nat × α) (line : List (Nat × α)) (j : Nat) :
    valuesAt (e :: line) j = (if e.1 = j then [e.2] else []) ++ valuesAt line j := by
  unfold valuesAt
  rw [List.filter_cons]
  by_cases h : e.1 = j <;> simp [h]

theorem valuesAt_eq_nil_iff {j : Nat} : valuesAt line j = [] ↔ ∀ e ∈ line, e.1 ≠ j := by
  simp [valuesAt]

/-- The first position of a sorted line is no greater than that of a line with the same values. -/
theorem first_le {e e' : Nat × α} (h : Ascending (e :: line))
    (hvalues : ∀ j, valuesAt (e :: line) j = valuesAt (e' :: line') j) : e.1 ≤ e'.1 := by
  have hstored : valuesAt (e :: line) e'.1 ≠ [] := by
    rw [hvalues, Ne, valuesAt_eq_nil_iff]
    exact fun hnone => hnone e' List.mem_cons_self rfl
  rw [Ne, valuesAt_eq_nil_iff] at hstored
  push Not at hstored
  obtain ⟨d, hd, hposition⟩ := hstored
  rcases List.mem_cons.1 hd with rfl | hd
  · exact Nat.le_of_eq hposition
  · exact hposition ▸ List.rel_of_pairwise_cons h hd

/-- A sorted line is told by what it stores at every position, in order. -/
theorem valuesAt_ext (h : Ascending line) (h' : Ascending line')
    (hvalues : ∀ j, valuesAt line j = valuesAt line' j) : line = line' := by
  induction line generalizing line' with
  | nil =>
    cases line' with
    | nil => rfl
    | cons e' rest' => simpa [valuesAt] using hvalues e'.1
  | cons e rest ih =>
    cases line' with
    | nil => simpa [valuesAt] using hvalues e.1
    | cons e' rest' =>
      have hposition : e.1 = e'.1 :=
        Nat.le_antisymm (first_le h hvalues) (first_le h' fun j => (hvalues j).symm)
      have hvalue : e.2 = e'.2 := by
        have := hvalues e.1
        rw [valuesAt_cons, valuesAt_cons, if_pos rfl, if_pos hposition.symm] at this
        exact (List.cons.inj this).1
      obtain rfl : e = e' := Prod.ext hposition hvalue
      have hrest : ∀ j, valuesAt rest j = valuesAt rest' j := by
        intro j
        have := hvalues j
        rwa [valuesAt_cons, valuesAt_cons, List.append_cancel_left_eq] at this
      rw [ih (List.pairwise_cons.1 h).2 (List.pairwise_cons.1 h').2 hrest]

/-- Stable sorting keeps the order of the values at one position. -/
theorem valuesAt_mergeSort (line : List (Nat × α)) (j : Nat) :
    valuesAt (line.mergeSort fun a b => decide (a.1 ≤ b.1)) j = valuesAt line j := by
  have alike : (line.filter fun e => e.1 = j).Pairwise fun a b => decide (a.1 ≤ b.1) = true := by
    refine List.pairwise_of_forall_mem_list fun a ha b hb => ?_
    simp only [List.mem_filter, decide_eq_true_eq] at ha hb ⊢
    omega
  have kept : (line.filter fun e => e.1 = j).Sublist
      (line.mergeSort fun a b => decide (a.1 ≤ b.1)) :=
    List.sublist_mergeSort position_trans position_total alike List.filter_sublist
  have within := kept.filter fun e => decide (e.1 = j)
  rw [List.filter_filter] at within
  simp only [Bool.and_self] at within
  have same := within.eq_of_length ((List.mergeSort_perm _ _).filter _).length_eq.symm
  exact congrArg (List.map Prod.snd) same.symm

end Lines

section Regroup

variable (m : Sparse α)

theorem number_ascending (first : Nat) (lines : List (List (Nat × α))) :
    (number first lines).Pairwise fun a b => a.line ≤ b.line := by
  induction lines generalizing first with
  | nil => exact .nil
  | cons line rest ih =>
    rw [number, List.pairwise_append]
    refine ⟨?_, ih (first + 1), ?_⟩
    · rw [List.pairwise_map]
      exact List.pairwise_of_forall fun _ _ => Nat.le_refl first
    · intro a ha b hb
      obtain ⟨e, -, rfl⟩ := List.mem_map.1 ha
      have := number_line_le hb
      simp only
      omega

/-- The entries of a new line come by the number of their old line. -/
theorem regroup_ascending (j : Nat) : Ascending (m.regroup.line j) := by
  rw [line_regroup]
  unfold Ascending
  rw [List.pairwise_map]
  exact (number_ascending 0 m.lines).filter _

theorem number_append (first : Nat) {lines : List (List (Nat × α))} {e : Entry α}
    (h : e.position < lines.length) :
    (number first (append lines e)).Perm
      (number first lines ++ [⟨first + e.position, e.line, e.value⟩]) := by
  obtain ⟨line, position, value⟩ := e
  simp only [append] at *
  induction lines generalizing first position with
  | nil => cases h
  | cons l rest ih =>
    cases position with
    | zero =>
      rw [List.modify_zero_cons, number, number, List.map_append, List.append_assoc,
        List.append_assoc]
      exact (List.perm_append_comm).append_left _
    | succ position =>
      rw [List.modify_succ_cons, number, number, List.append_assoc]
      have hshift : first + (position + 1) = first + 1 + position := by omega
      rw [hshift]
      exact (ih (first + 1) position (Nat.lt_of_succ_lt_succ h)).append_left _

theorem number_foldl_append (lines : List (List (Nat × α))) {es : List (Entry α)}
    (h : ∀ e ∈ es, e.position < lines.length) :
    (number 0 (es.foldl append lines)).Perm (number 0 lines ++ es.map Entry.flipped) := by
  induction es generalizing lines with
  | nil => rw [List.map_nil, List.append_nil]; exact .refl _
  | cons e es ih =>
    rw [List.forall_mem_cons] at h
    have first := number_append 0 h.1
    have later := ih (append lines e) fun e' he' => by
      rw [length_append]
      exact h.2 e' he'
    rw [Nat.zero_add] at first
    have := later.trans (first.append_right _)
    rwa [List.append_assoc] at this

theorem number_replicate_nil (first n : Nat) :
    number first (List.replicate n ([] : List (Nat × α))) = [] := by
  induction n generalizing first with
  | zero => rfl
  | succ n ih => rw [List.replicate_succ, number, ih, List.map_nil, List.nil_append]

/-- No entry is lost or made: lines and positions change places. -/
theorem regroup_perm : m.regroup.entries.Perm (m.entries.map Entry.flipped) := by
  have within : ∀ e ∈ m.entries,
      e.position < (List.replicate m.width ([] : List (Nat × α))).length := by
    intro e he
    rw [List.length_replicate]
    exact entries_position_lt he
  have moved := number_foldl_append _ within
  rwa [number_replicate_nil, List.nil_append] at moved

theorem length_entries : m.entries.length = m.values.length := by
  have counted (first : Nat) (lines : List (List (Nat × α))) :
      (number first lines).length = lines.flatten.length := by
    induction lines generalizing first with
    | nil => rfl
    | cons line rest ih =>
      rw [number, List.length_append, List.length_map, ih, List.flatten_cons, List.length_append]
  rw [entries, counted, values, List.length_map]

end Regroup

section Offsets

variable (m : Sparse α)

theorem start_le_of_mem_scanl {lines : List (List (Nat × α))} {start stop : Nat}
    (h : stop ∈ lines.scanl (fun start line => start + line.length) start) : start ≤ stop := by
  induction lines generalizing start with
  | nil => exact Nat.le_of_eq (List.mem_singleton.1 h).symm
  | cons line rest ih =>
    rw [List.scanl_cons, List.mem_cons] at h
    rcases h with rfl | h
    · exact Nat.le_refl _
    · exact Nat.le_trans (Nat.le_add_right _ _) (ih h)

theorem scanl_monotone (lines : List (List (Nat × α))) (start : Nat) :
    (lines.scanl (fun start line => start + line.length) start).Pairwise (· ≤ ·) := by
  induction lines generalizing start with
  | nil => exact List.pairwise_singleton _ _
  | cons line rest ih =>
    rw [List.scanl_cons, List.pairwise_cons]
    refine ⟨fun stop hstop => ?_, ih _⟩
    exact Nat.le_trans (Nat.le_add_right _ _) (start_le_of_mem_scanl hstop)

theorem offsets_monotone : m.offsets.Pairwise (· ≤ ·) := scanl_monotone m.lines 0

theorem length_offsets : m.offsets.length = m.height + 1 := List.length_scanl

theorem first_offset : m.offsets.head? = some 0 := List.head?_scanl

theorem last_offset : m.offsets.getLast? = some m.values.length := by
  have total (lines : List (List (Nat × α))) (start : Nat) :
      lines.foldl (fun start line => start + line.length) start
        = start + lines.flatten.length := by
    induction lines generalizing start with
    | nil => rfl
    | cons line rest ih =>
      rw [List.foldl_cons, ih, List.flatten_cons, List.length_append, Nat.add_assoc]
  rw [offsets, List.getLast?_scanl, total, Nat.zero_add, values, List.length_map]

theorem cut_cons (entries : List (Nat × α)) (start stop : Nat) (lines : List (List (Nat × α))) :
    Compressed.cut entries
        (start :: lines.scanl (fun start line => start + line.length) stop) =
      (entries.drop start).take (stop - start) ::
        Compressed.cut entries (lines.scanl (fun start line => start + line.length) stop) := by
  cases lines with
  | nil => rfl
  | cons line rest => rw [List.scanl_cons, Compressed.cut]

theorem cut_scanl (before : List (Nat × α)) (lines : List (List (Nat × α))) :
    Compressed.cut (before ++ lines.flatten)
      (lines.scanl (fun start line => start + line.length) before.length) = lines := by
  induction lines generalizing before with
  | nil => rfl
  | cons line rest ih =>
    have later := ih (before ++ line)
    rw [List.length_append, List.append_assoc] at later
    rw [List.scanl_cons, List.flatten_cons, cut_cons, later, List.drop_left,
      Nat.add_sub_cancel_left, List.take_left]

/-- Positions and values, cut at the offsets, are the lines again. -/
theorem cut_offsets : Compressed.cut (m.positions.zip m.values) m.offsets = m.lines := by
  have whole : m.positions.zip m.values = m.lines.flatten := (List.zip_of_prod rfl rfl).symm
  rw [whole]
  exact cut_scanl [] m.lines

end Offsets

section Back

variable (m : Sparse α)

theorem ext_lines {m m' : Sparse α} (hwidth : m.width = m'.width) (hlines : m.lines = m'.lines) :
    m = m' := by
  obtain ⟨width, lines, bounded⟩ := m
  obtain ⟨width', lines', bounded'⟩ := m'
  simp only at hwidth hlines
  subst hwidth hlines
  rfl

theorem line_eq_getElem {i : Nat} (h : i < m.lines.length) : m.line i = m.lines[i] := by
  rw [line, List.getD_eq_getElem?_getD, List.getElem?_eq_getElem h, Option.getD_some]

/-- Back among its old lines, every entry stands in its line's stable order. -/
theorem regroup_regroup_line (i : Nat) :
    m.regroup.regroup.line i = (m.line i).mergeSort fun a b => decide (a.1 ≤ b.1) := by
  apply valuesAt_ext (m.regroup.regroup_ascending i) (mergeSort_ascending _)
  intro j
  rw [valuesAt_regroup, valuesAt_regroup, valuesAt_mergeSort]

theorem regroup_regroup_width : m.regroup.regroup.width = m.width := m.regroup_height

theorem regroup_regroup_lines : m.regroup.regroup.lines =
    m.lines.map fun line => line.mergeSort fun a b => decide (a.1 ≤ b.1) := by
  have hlength : m.regroup.regroup.lines.length = m.lines.length := m.regroup.regroup_height
  apply List.ext_getElem
  · rw [hlength, List.length_map]
  · intro i hi hi'
    rw [← line_eq_getElem, regroup_regroup_line, List.getElem_map, line_eq_getElem]

/-- A matrix with sorted lines comes back as it was. -/
theorem regroup_regroup_of_ascending (h : ∀ line ∈ m.lines, Ascending line) :
    m.regroup.regroup = m := by
  apply ext_lines m.regroup_regroup_width
  rw [regroup_regroup_lines]
  refine (List.map_congr_left fun line hline => ?_).trans (List.map_id _)
  exact List.mergeSort_of_pairwise ((h line hline).imp decide_eq_true)

theorem dense_eq_map_cell [Scalar α] :
    m.dense = (List.range m.height).map fun i => (List.range m.width).map fun j => m.cell i j := by
  unfold dense
  apply List.ext_getElem
  · simp [height]
  · intro i hi hi'
    rw [List.length_map] at hi
    simp only [List.getElem_map, List.getElem_range, cell, line_eq_getElem m hi]

end Back

/-- **Columns hold exactly what rows held.** Regrouping a matrix exchanges its extents. There is an
offset for every column and one more; they begin at zero, never fall, end at the number of stored
entries and cut these into the columns. The entries are the same, each with its row and column.
Within a column rows never fall and repeated entries keep their order, so that the full matrix is
the same under any addition. Regrouping once more sorts every row stably by column, and so gives
back a matrix whose rows were sorted. -/
theorem regroup_exact [Scalar α] (m : Sparse α) :
    (m.regroup.height = m.width ∧ m.regroup.width = m.height) ∧
    (m.regroup.offsets.length = m.width + 1 ∧ m.regroup.offsets.head? = some 0 ∧
      m.regroup.offsets.Pairwise (· ≤ ·) ∧ m.regroup.offsets.getLast? = some m.values.length ∧
      Compressed.cut (m.regroup.positions.zip m.regroup.values) m.regroup.offsets
        = m.regroup.lines) ∧
    m.regroup.entries.Perm (m.entries.map Entry.flipped) ∧
    (∀ j, Ascending (m.regroup.line j) ∧
      ∀ i, valuesAt (m.regroup.line j) i = valuesAt (m.line i) j) ∧
    (∀ linear, Program.dense ⟨m.regroup, linear⟩ = m.dense) ∧
    (m.regroup.regroup.width = m.width ∧ m.regroup.regroup.lines =
      m.lines.map fun line => line.mergeSort fun a b => decide (a.1 ≤ b.1)) ∧
    ((∀ line ∈ m.lines, Ascending line) → m.regroup.regroup = m) := by
  have stored : m.regroup.values.length = m.values.length := by
    have hperm := m.regroup_perm.length_eq
    rwa [List.length_map, length_entries, length_entries] at hperm
  refine ⟨⟨m.regroup_height, rfl⟩, ⟨?_, m.regroup.first_offset, m.regroup.offsets_monotone, ?_,
    m.regroup.cut_offsets⟩, m.regroup_perm, fun j => ⟨m.regroup_ascending j, m.valuesAt_regroup j⟩,
    fun linear => ?_, ⟨m.regroup_regroup_width, m.regroup_regroup_lines⟩,
    m.regroup_regroup_of_ascending⟩
  · rw [length_offsets, regroup_height]
  · rw [last_offset, stored]
  · rw [Program.dense_regroup, dense_eq_map_cell]

/-- Three rows of two columns: an empty row, a repeated entry that cancels out, and a zero. -/
def tallMatrix : Sparse Float := ⟨2, [[(0, 1), (1, 3), (1, -3)], [], [(1, 0)]], by decide⟩

theorem regroup_exact_tall : (∀ line ∈ tallMatrix.lines, Ascending line) ∧
    tallMatrix.regroup.regroup = tallMatrix := by
  have sorted : ∀ line ∈ tallMatrix.lines, Ascending line := by
    unfold Ascending
    decide
  obtain ⟨-, -, -, -, -, -, back⟩ := regroup_exact tallMatrix
  exact ⟨sorted, back sorted⟩

end Sparse

end BinaryQuadratic
