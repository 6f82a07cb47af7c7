import BinaryQuadratic.Proofs.Products

/-!
# Merged lines

What is left of a matrix once its lines were sorted by position and their repeated entries added up.

* `combine_increasing`, `merged_increasing`: positions strictly increase in every line;
* `merged_merged`: merging a second time changes nothing;
* `cell_merged`: over the rationals no cell changes;
* `line_merged_stable`: nor does it matter there in which order repeated entries were added up.
-/

namespace BinaryQuadratic

/-- No position lies below an earlier one. -/
def LineOrder.Ascending {α : Type} (line : List (Nat × α)) : Prop :=
  line.Pairwise fun a b => a.1 ≤ b.1

/-- Every position lies above all earlier ones. -/
def LineOrder.Increasing {α : Type} (line : List (Nat × α)) : Prop :=
  line.Pairwise fun a b => a.1 < b.1

namespace LineOrder

variable {α : Type} {line : List (Nat × α)}

theorem Increasing.ascending (h : Increasing line) : Ascending line :=
  List.Pairwise.imp Nat.le_of_lt h

theorem isSorted_iff : isSorted line = true ↔ Ascending line := by
  induction line with
  | nil => exact iff_of_true rfl .nil
  | cons first rest ih =>
    cases rest with
    | nil => exact iff_of_true rfl (List.pairwise_singleton _ _)
    | cons second rest =>
      rw [isSorted, Bool.and_eq_true, decide_eq_true_eq, ih]
      unfold Ascending
      rw [List.pairwise_cons (a := first), List.forall_mem_cons]
      constructor
      · rintro ⟨hle, hrest⟩
        exact ⟨⟨hle, fun e he => Nat.le_trans hle (List.rel_of_pairwise_cons hrest he)⟩, hrest⟩
      · rintro ⟨⟨hle, -⟩, hrest⟩
        exact ⟨hle, hrest⟩

theorem position_trans (a b c : Nat × α) (hab : decide (a.1 ≤ b.1) = true)
    (hbc : decide (b.1 ≤ c.1) = true) : decide (a.1 ≤ c.1) = true := by
  rw [decide_eq_true_eq] at *
  exact Nat.le_trans hab hbc

theorem position_total (a b : Nat × α) : (decide (a.1 ≤ b.1) || decide (b.1 ≤ a.1)) = true := by
  rw [Bool.or_eq_true, decide_eq_true_eq, decide_eq_true_eq]
  exact Nat.le_total a.1 b.1

theorem mergeSort_ascending (line : List (Nat × α)) :
    Ascending (line.mergeSort fun a b => decide (a.1 ≤ b.1)) :=
  (List.pairwise_mergeSort position_trans position_total line).imp of_decide_eq_true

end LineOrder

namespace Sparse

open LineOrder

section Lines

variable {α : Type} [Scalar α]

theorem absorb_increasing {j : Nat} {v : α} {line : List (Nat × α)}
    (h : Ascending ((j, v) :: line)) : Increasing (absorb j v line) := by
  induction line generalizing j v with
  | nil => exact List.pairwise_singleton _ _
  | cons e rest ih =>
    obtain ⟨k, w⟩ := e
    obtain ⟨hfirst, hrest⟩ := List.pairwise_cons.1 h
    rw [List.forall_mem_cons] at hfirst
    obtain ⟨hjk, hlater⟩ := hfirst
    unfold absorb
    split
    · exact ih (List.pairwise_cons.2 ⟨hlater, (List.pairwise_cons.1 hrest).2⟩)
    · rename_i hne
      have hlt : j < k := Nat.lt_of_le_of_ne hjk (Ne.symm hne)
      refine List.pairwise_cons.2 ⟨fun e he => ?_, ih hrest⟩
      rcases mem_absorb he with hk | ⟨e', he', hk⟩
      · exact hk ▸ hlt
      · exact hk ▸ Nat.lt_of_lt_of_le hlt (List.rel_of_pairwise_cons hrest he')

theorem combine_increasing {line : List (Nat × α)} (h : Ascending line) :
    Increasing (combine line) := by
  cases line with
  | nil => exact .nil
  | cons e rest => exact absorb_increasing h

theorem absorb_of_increasing {j : Nat} {v : α} {line : List (Nat × α)}
    (h : Increasing ((j, v) :: line)) : absorb j v line = (j, v) :: line := by
  induction line generalizing j v with
  | nil => rfl
  | cons e rest ih =>
    obtain ⟨k, w⟩ := e
    obtain ⟨hfirst, hrest⟩ := List.pairwise_cons.1 h
    have hjk : j < k := hfirst (k, w) List.mem_cons_self
    rw [absorb, if_neg (Nat.ne_of_gt hjk), ih hrest]

theorem combine_of_increasing {line : List (Nat × α)} (h : Increasing line) :
    combine line = line := by
  cases line with
  | nil => rfl
  | cons e rest => exact absorb_of_increasing h

theorem mem_positions_absorb {j p : Nat} {v : α} {line : List (Nat × α)} :
    p ∈ (absorb j v line).map Prod.fst ↔ p = j ∨ p ∈ line.map Prod.fst := by
  induction line generalizing j v with
  | nil => simp [absorb]
  | cons e rest ih =>
    obtain ⟨k, w⟩ := e
    unfold absorb
    split
    · rename_i hk
      rw [ih, List.map_cons, List.mem_cons, hk, ← or_assoc, or_self]
    · rw [List.map_cons, List.mem_cons, ih, List.map_cons, List.mem_cons]

theorem mem_positions_combine {p : Nat} {line : List (Nat × α)} :
    p ∈ (combine line).map Prod.fst ↔ p ∈ line.map Prod.fst := by
  cases line with
  | nil => exact Iff.rfl
  | cons e rest =>
    rw [combine, mem_positions_absorb, List.map_cons, List.mem_cons]

omit [Scalar α] in
/-- The line that is ordered has the same entries, by position. -/
theorem exists_ordered (m : Sparse α) (i : Nat) :
    (m.orderedLines.getD i []).Perm (m.line i) ∧ Ascending (m.orderedLines.getD i []) := by
  unfold orderedLines line
  split
  · rename_i hall
    refine ⟨.refl _, ?_⟩
    rw [List.getD_eq_getElem?_getD]
    cases hi : m.lines[i]? with
    | none => exact .nil
    | some l => exact isSorted_iff.1 (List.all_eq_true.1 hall l (List.mem_of_getElem? hi))
  · rw [List.getD_eq_getElem?_getD, List.getD_eq_getElem?_getD, List.getElem?_map]
    cases m.lines[i]? with
    | none => exact ⟨.refl _, .nil⟩
    | some l => exact ⟨sorted_perm l, mergeSort_ascending _⟩

theorem line_merged (m : Sparse α) (i : Nat) :
    m.merged.line i = combine (m.orderedLines.getD i []) := by
  simp only [line, merged, List.getD_eq_getElem?_getD, List.getElem?_map]
  cases m.orderedLines[i]? <;> rfl

theorem merged_increasing (m : Sparse α) (i : Nat) : Increasing (m.merged.line i) := by
  rw [line_merged]
  exact combine_increasing (m.exists_ordered i).2

theorem merged_of_increasing {m : Sparse α} (h : ∀ i, Increasing (m.line i)) : m.merged = m := by
  have increasing : ∀ l ∈ m.lines, Increasing l := by
    intro l hl
    obtain ⟨i, hi⟩ := List.mem_iff_getElem?.1 hl
    have := h i
    rwa [line, List.getD_eq_getElem?_getD, hi] at this
  have hall : m.lines.all isSorted = true :=
    List.all_eq_true.2 fun l hl => isSorted_iff.2 (increasing l hl).ascending
  have hlines : m.orderedLines.map combine = m.lines := by
    rw [orderedLines, if_pos hall]
    exact (List.map_congr_left fun l hl => combine_of_increasing (increasing l hl)).trans
      (List.map_id _)
  obtain ⟨width, lines, bounded⟩ := m
  simp only [merged, hlines]

/-- Merging a second time changes nothing. -/
theorem merged_merged (m : Sparse α) : m.merged.merged = m.merged :=
  merged_of_increasing m.merged_increasing

end Lines

section Cells

theorem entryAt_perm {line line' : List (Nat × Rat)} (h : line.Perm line') (j : Nat) :
    entryAt line j = entryAt line' j := by
  unfold entryAt
  rw [Summation.running_eq_sum, Summation.running_eq_sum]
  exact ((h.filter _).map _).sum_eq

theorem entryAt_absorb (j : Nat) (v : Rat) (line : List (Nat × Rat)) (p : Nat) :
    entryAt (absorb j v line) p = entryAt ((j, v) :: line) p := by
  induction line generalizing j v with
  | nil => rfl
  | cons e rest ih =>
    obtain ⟨k, w⟩ := e
    unfold absorb
    split
    · rename_i hk
      rw [ih, entryAt_cons, entryAt_cons, entryAt_cons, hk]
      by_cases hp : j = p
      · simp only [hp, if_true, add_assoc]
      · simp only [hp, if_false, zero_add]
    · rw [entryAt_cons, ih, ← entryAt_cons]

theorem entryAt_combine (line : List (Nat × Rat)) (p : Nat) :
    entryAt (combine line) p = entryAt line p := by
  cases line with
  | nil => rfl
  | cons e rest => exact entryAt_absorb e.1 e.2 rest p

/-- Merging keeps every cell. -/
theorem cell_merged (m : Sparse Rat) (i j : Nat) : m.merged.cell i j = m.cell i j := by
  rw [cell, line_merged, entryAt_combine]
  exact entryAt_perm (m.exists_ordered i).1 j

theorem entryAt_of_not_mem {line : List (Nat × Rat)} {j : Nat} (h : j ∉ line.map Prod.fst) :
    entryAt line j = 0 := by
  have hnone : (line.filter fun e => e.1 = j) = [] := by
    rw [List.filter_eq_nil_iff]
    intro e he hej
    exact h (of_decide_eq_true hej ▸ List.mem_map_of_mem he)
  rw [entryAt, hnone]
  rfl

/-- A line whose positions increase is told by its positions and the values there. -/
theorem eq_map_entryAt {line : List (Nat × Rat)} (h : Increasing line) :
    (line.map Prod.fst).map (fun j => (j, entryAt line j)) = line := by
  induction line with
  | nil => rfl
  | cons e rest ih =>
    obtain ⟨hfirst, hrest⟩ := List.pairwise_cons.1 h
    have absent : e.1 ∉ rest.map Prod.fst := by
      intro hmem
      obtain ⟨e', he', heq⟩ := List.mem_map.1 hmem
      exact absurd (hfirst e' he') (heq ▸ Nat.lt_irrefl _)
    have later : ∀ j ∈ rest.map Prod.fst, (j, entryAt (e :: rest) j) = (j, entryAt rest j) := by
      intro j hj
      have hne : e.1 ≠ j := fun heq => absent (heq ▸ hj)
      rw [entryAt_cons, if_neg hne, zero_add]
    rw [List.map_cons, List.map_cons, List.map_congr_left later, ih hrest, entryAt_cons, if_pos rfl,
      entryAt_of_not_mem absent, add_zero]

theorem increasing_ext {line line' : List (Nat × Rat)} (h : Increasing line)
    (h' : Increasing line') (hpositions : ∀ j, j ∈ line.map Prod.fst ↔ j ∈ line'.map Prod.fst)
    (hvalues : ∀ j, entryAt line j = entryAt line' j) : line = line' := by
  have strict {l : List (Nat × Rat)} (hl : Increasing l) :
      (l.map Prod.fst).Pairwise (· < ·) := List.pairwise_map.2 hl
  have same : line.map Prod.fst = line'.map Prod.fst := by
    have hperm : (line.map Prod.fst).Perm (line'.map Prod.fst) :=
      (List.perm_ext_iff_of_nodup (strict h).nodup (strict h').nodup).2 hpositions
    exact hperm.eq_of_pairwise (fun a b _ _ hab hba => absurd hab (Nat.lt_asymm hba)) (strict h)
      (strict h')
  rw [← eq_map_entryAt h, ← eq_map_entryAt h', same]
  exact List.map_congr_left fun j _ => by rw [hvalues]

/-- It does not matter in which order the repeated entries of a sorted line come. -/
theorem combine_eq_of_perm {line line' : List (Nat × Rat)} (h : Ascending line)
    (h' : Ascending line') (hperm : line.Perm line') : combine line = combine line' := by
  apply increasing_ext (combine_increasing h) (combine_increasing h')
  · intro j
    rw [mem_positions_combine, mem_positions_combine]
    exact (hperm.map Prod.fst).mem_iff
  · intro j
    rw [entryAt_combine, entryAt_combine]
    exact entryAt_perm hperm j

/-- A merged line is the line in its stable order, its repeated entries added up. -/
theorem line_merged_stable (m : Sparse Rat) (i : Nat) :
    m.merged.line i = combine ((m.line i).mergeSort fun a b => decide (a.1 ≤ b.1)) := by
  rw [line_merged]
  obtain ⟨hperm, hascending⟩ := m.exists_ordered i
  exact combine_eq_of_perm hascending (mergeSort_ascending (m.line i))
    (hperm.trans (List.mergeSort_perm _ _).symm)

end Cells

end Sparse

end BinaryQuadratic
