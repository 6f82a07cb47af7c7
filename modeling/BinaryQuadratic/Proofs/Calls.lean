import BinaryQuadratic.Calls
import BinaryQuadratic.Proofs.Storage

/-!
# Calls do not disturb one another

A form over the rationals is rewritten by some of its calls, and no call can tell.

* `Agrees`: equal answers; of programs the full matrix and the linear part count;
* `answer_merged`: a merged form answers as the form does;
* `leaves_settled`: a call leaves the form as it was or merged, and a merged form as it is;
* `calls_undisturbed`: every call of a sequence answers as on the form it began with.
-/

namespace BinaryQuadratic.Call

open LineOrder

/-- Equal answers. Of a program the full matrix and the linear part count, not how its columns are
stored. -/
inductive Agrees {α : Type} [Scalar α] : Except Fault (Answer α) → Except Fault (Answer α) → Prop
  | same (reply : Except Fault (Answer α)) : Agrees reply reply
  | program {p q : Program α} (dense : p.dense = q.dense) (linear : p.linear = q.linear) :
      Agrees (.ok (.program p)) (.ok (.program q))

theorem dense_merged (f : Quadratic Rat) :
    (Program.ofForm f.merged).dense = (Program.ofForm f).dense := by
  rw [Program.dense_ofForm, Program.dense_ofForm, f.size_merged]
  simp only [Quadratic.merged, Sparse.cell_merged]

/-- Merging does not show in any answer. -/
theorem answer_merged (f : Quadratic Rat) (call : Call Rat) :
    Agrees (call.answer f.merged) (call.answer f) := by
  have alike := f.alike_merged
  cases call with
  | evaluate point =>
    simp only [answer, alike.evaluateAt]
    exact .same _
  | alpha =>
    simp only [answer, alike.alpha]
    exact .same _
  | rho =>
    simp only [answer, alike.rho]
    exact .same _
  | alphaPoint =>
    simp only [answer, StartingPoint.ofAlpha, alike.alpha, alike.size]
    exact .same _
  | rhoPoint =>
    simp only [answer, StartingPoint.ofRho, alike.rho, alike.size]
    exact .same _
  | flips strategy seed visited node =>
    simp only [answer, alike.flips]
    exact .same _
  | select strategy seed visited node =>
    simp only [answer, alike.select]
    exact .same _
  | program => exact .program (dense_merged f) rfl

section Storage

variable {α : Type} [Scalar α] (f : Quadratic α)

/-- Merging a second time changes nothing. -/
theorem form_merged_merged : f.merged.merged = f.merged := by
  simp only [Quadratic.merged, Sparse.merged_merged]

theorem leaves_merged (call : Call α) : call.leaves f.merged = f.merged := by
  unfold leaves
  rw [form_merged_merged, ite_self]

/-- A call leaves the form as it was, or merged. -/
theorem leaves_settled (call : Call α) : call.leaves f = f ∨ call.leaves f = f.merged := by
  unfold leaves
  cases call.merges with
  | true => exact .inr rfl
  | false => exact .inl rfl

theorem run_append (past later : List (Call α)) :
    (run f (past ++ later)).2 = (run (run f past).2 later).2 := by
  induction past generalizing f with
  | nil => rfl
  | cons call past ih => exact ih (call.leaves f)

theorem run_merged (calls : List (Call α)) : (run f.merged calls).2 = f.merged := by
  induction calls with
  | nil => rfl
  | cons call rest ih =>
    change (run (call.leaves f.merged) rest).2 = f.merged
    rw [leaves_merged, ih]

theorem run_unmerged {calls : List (Call α)} (h : ∀ call ∈ calls, call.merges = false) :
    (run f calls).2 = f := by
  induction calls with
  | nil => rfl
  | cons call rest ih =>
    obtain ⟨hcall, hrest⟩ := List.forall_mem_cons.1 h
    have kept : call.leaves f = f := by
      unfold leaves
      rw [hcall, if_neg Bool.false_ne_true]
    change (run (call.leaves f) rest).2 = f
    rw [kept, ih hrest]

theorem run_settled (calls : List (Call α)) : (run f calls).2 = f ∨ (run f calls).2 = f.merged := by
  induction calls with
  | nil => exact .inl rfl
  | cons call rest ih =>
    change (run (call.leaves f) rest).2 = f ∨ (run (call.leaves f) rest).2 = f.merged
    rcases leaves_settled f call with h | h
    · rwa [h]
    · rw [h]
      exact .inr (run_merged f rest)

theorem leaves_of_merges {call : Call α} (h : call.merges = true) : call.leaves f = f.merged :=
  if_pos h

/-- Once a call has merged the form it stays merged. -/
theorem run_after_merging (past : List (Call α)) {call : Call α} (h : call.merges = true)
    (later : List (Call α)) : (run f (past ++ call :: later)).2 = f.merged := by
  rw [run_append]
  change (run (call.leaves (run f past).2) later).2 = f.merged
  rw [leaves_of_merges _ h]
  rcases run_settled f past with hpast | hpast
  · rw [hpast, run_merged]
  · rw [hpast, form_merged_merged, run_merged]

end Storage

/-- A form or its merged one give the first form's answers, whatever is called in between. -/
theorem answers_agree (f : Quadratic Rat) {g : Quadratic Rat} (hg : g = f ∨ g = f.merged)
    (calls : List (Call Rat)) :
    List.Forall₂ Agrees (run g calls).1 (calls.map fun call => call.answer f) := by
  induction calls generalizing g with
  | nil => exact .nil
  | cons call rest ih =>
    rcases hg with rfl | rfl
    · exact .cons (.same _) (ih (leaves_settled g call))
    · exact .cons (answer_merged f call) (ih (.inr (leaves_merged f call)))

/-- **A form is never seen to change.** In every sequence of calls each one answers as it would on
the form that the sequence began with; a program may keep its columns differently, but its matrix
and its linear part are the same. The storage stays as it was until a call adds up the stored
entries. From then on, whatever is called, it is the merged one: every row in its stable order with
repeated entries added up, so that positions increase strictly. -/
theorem calls_undisturbed (f : Quadratic Rat) :
    (∀ calls, List.Forall₂ Agrees (run f calls).1 (calls.map fun call => call.answer f)) ∧
    (∀ calls, (∀ call ∈ calls, call.merges = false) → (run f calls).2 = f) ∧
    (∀ past call, call.merges = true → ∀ later, (run f (past ++ call :: later)).2 = f.merged) ∧
    ∀ i, f.merged.matrix.line i
        = Sparse.combine ((f.matrix.line i).mergeSort fun a b => decide (a.1 ≤ b.1)) ∧
      Increasing (f.merged.matrix.line i) := by
  refine ⟨?_, ?_, ?_, ?_⟩
  · exact answers_agree f (.inl rfl)
  · intro calls hreading
    exact run_unmerged f hreading
  · intro past call hmerges later
    exact run_after_merging f past hmerges later
  · intro i
    exact ⟨f.matrix.line_merged_stable i, f.matrix.merged_increasing i⟩

/-- Two variables; the rows are out of order, with repeated entries on the diagonal and beside it,
and a zero. -/
def scatteredForm : Quadratic Rat :=
  ⟨⟨2, [[(1, 3), (0, 2), (1, -1), (0, 1)], [(1, 0), (0, 5), (1, 4)]], by decide⟩, [1, -2], rfl,
    by decide⟩

theorem scatteredForm_answers :
    ([.alpha, .evaluate (.vector [1, 1]), .rho] : List (Call Rat)).map
        (fun call => call.answer scatteredForm)
      = [.ok (.value (1 / 14)), .ok (.value 6), .ok (.value (1 / 7))] := by
  have halpha : scatteredForm.alpha = 1 / 14 := by
    rw [Quadratic.alpha_eq]
    decide +kernel
  have hrho : scatteredForm.rho = 1 / 7 := by
    rw [Quadratic.rho, Summation.balanced_eq_sum, Summation.balanced_eq_sum]
    decide +kernel
  have hvalue : scatteredForm.evaluateAt (.vector [1, 1]) = .ok 6 := by decide +kernel
  simp only [List.map_cons, List.map_nil, answer, halpha, hrho, hvalue, Except.map]

theorem calls_undisturbed_scattered :
    (Call.alpha : Call Rat).merges = true ∧ (Call.rho : Call Rat).merges = false ∧
    (run scatteredForm [.rho]).2 = scatteredForm ∧
    ¬Increasing (scatteredForm.matrix.line 0) ∧
    Increasing ((run scatteredForm [.rho, .alpha, .program, .alphaPoint]).2.matrix.line 0) ∧
    List.Forall₂ Agrees (run scatteredForm [.alpha, .evaluate (.vector [1, 1]), .rho]).1
      [.ok (.value (1 / 14)), .ok (.value 6), .ok (.value (1 / 7))] := by
  have merging : (Call.alpha : Call Rat).merges = true := rfl
  have reading : (Call.rho : Call Rat).merges = false := rfl
  obtain ⟨answers, kept, settled, increasing⟩ := calls_undisturbed scatteredForm
  have last := settled [.rho] .alpha merging [.program, .alphaPoint]
  rw [List.singleton_append] at last
  refine ⟨merging, reading, kept [.rho] (List.forall_mem_singleton.2 reading), ?_, ?_, ?_⟩
  · unfold Increasing
    decide
  · rw [last]
    exact (increasing 0).2
  · rw [← scatteredForm_answers]
    exact answers _

end BinaryQuadratic.Call
