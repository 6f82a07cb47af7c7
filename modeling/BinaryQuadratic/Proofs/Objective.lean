import BinaryQuadratic.Proofs.Calls
import BinaryQuadratic.Relaxation.Solve

/-!
# Reported objectives

What a relaxation reports is read off the full matrix of its program, not off the rows of the form.

* `programAfter`: the program made from a form that was called before;
* `run_alike`, `evaluate_run`, `objective_after`: calls change neither the values of a form nor
  those of the programs made from it;
* `solve_eq_ok_iff`: a relaxation that is solved, taken apart;
* `objective_evaluates`: the reported objective is the form's value at the reported point, whenever
  the program was made and the form is asked.
-/

namespace BinaryQuadratic

open Quadratic

namespace Call

def programAfter {α : Type} [Scalar α] (f : Quadratic α) (past : List (Call α)) : Program α :=
  Program.ofForm (run f past).2

theorem run_alike (f : Quadratic Rat) (calls : List (Call Rat)) : Alike f (run f calls).2 := by
  rcases run_settled f calls with h | h
  · rw [h]
    exact ⟨rfl, fun _ _ _ _ => rfl⟩
  · rw [h]
    exact f.alike_merged

theorem evaluate_run (f : Quadratic Rat) (calls : List (Call Rat)) (x : List Rat) :
    (run f calls).2.evaluate x = f.evaluate x :=
  ((run_alike f calls).evaluateAt (.vector x)).symm

theorem objective_after (f : Quadratic Rat) (past : List (Call Rat)) (x : List Rat) :
    (programAfter f past).objective x = (Program.ofForm f).objective x :=
  ((run_alike f past).objective x).symm

end Call

namespace Relaxation

/-- A solved relaxation has the point that the routine answers, and the objective there. -/
theorem solve_eq_ok_iff {α : Type} [Scalar α] {routine : Routine α} {program : Program α}
    {node : Node α} {start : Start α} {settings : Settings} {relaxed : Relaxed α} :
    solve routine program node start settings = .ok relaxed ↔
      ∃ asked outcome, problem program node start settings = .ok asked ∧
        routine asked = .ok outcome ∧
        relaxed = ⟨outcome.x, program.objective outcome.x, outcome.status settings.maxIterations,
          outcome.iterations⟩ := by
  constructor
  · intro h
    obtain ⟨asked, hasked, h⟩ := bind_eq_ok_iff.1 h
    obtain ⟨outcome, houtcome, h⟩ := bind_eq_ok_iff.1 h
    exact ⟨asked, outcome, hasked, houtcome, (Except.ok.inj h).symm⟩
  · rintro ⟨asked, outcome, hasked, houtcome, rfl⟩
    exact bind_eq_ok_iff.2 ⟨asked, hasked, bind_eq_ok_iff.2 ⟨outcome, houtcome, rfl⟩⟩

/-- **The reported objective is the form's value.** A program is made from a form after any calls
on it, and the form is asked for its value after any others. At every point with an entry for each
variable the full matrix of the program and the rows of the form give one value. Whenever a routine
answers with such a point, to whatever it is asked for a node, a start and settings, the relaxation
is solved, and the objective that it reports is that value. -/
theorem objective_evaluates (f : Quadratic Rat) (past later : List (Call Rat))
    (routine : Routine Rat) (node : Node Rat) (start : Start Rat) (settings : Settings) :
    (∀ x, x.length = f.size →
      (Call.run f later).2.evaluate x = .ok
        (denseValue (Call.programAfter f past).dense (Call.programAfter f past).linear x)) ∧
    (∀ asked outcome, problem (Call.programAfter f past) node start settings = .ok asked →
      routine asked = .ok outcome →
      ∃ relaxed, solve routine (Call.programAfter f past) node start settings = .ok relaxed ∧
        relaxed.x = outcome.x) ∧
    ∀ relaxed, solve routine (Call.programAfter f past) node start settings = .ok relaxed →
      relaxed.x.length = f.size →
      (Call.run f later).2.evaluate relaxed.x = .ok relaxed.objective := by
  have agreed (x : List Rat) (hx : x.length = f.size) :
      (Call.run f later).2.evaluate x = .ok ((Call.programAfter f past).objective x) := by
    rw [Call.evaluate_run, Call.objective_after, Program.objective_ofForm f hx]
    exact if_pos hx
  refine ⟨agreed, ?_, ?_⟩
  · intro asked outcome hasked houtcome
    exact ⟨_, solve_eq_ok_iff.2 ⟨asked, outcome, hasked, houtcome, rfl⟩, rfl⟩
  · intro relaxed hsolved hx
    obtain ⟨asked, outcome, -, -, rfl⟩ := solve_eq_ok_iff.1 hsolved
    exact agreed outcome.x hx

/-- The first of the two variables is fixed at one half. -/
def halvedNode : Node Rat := ⟨none, [1 / 2, 1 / 2], ⟨[(0, 1 / 2)], by decide⟩⟩

/-- Where the form is least over the box of that node. -/
def halvedOutcome : Outcome Rat := ⟨[1 / 2, 1 / 16], true, 2⟩

theorem objective_evaluates_scattered :
    ∃ asked relaxed,
      problem (Call.programAfter Call.scatteredForm [.alpha]) halvedNode
        (.vector halvedNode.solution) .default = .ok asked ∧
      solve (fun _ => .ok halvedOutcome) (Call.programAfter Call.scatteredForm [.alpha])
        halvedNode (.vector halvedNode.solution) .default = .ok relaxed ∧
      relaxed.x.length = Call.scatteredForm.size ∧
      Call.scatteredForm.evaluate relaxed.x = .ok relaxed.objective := by
  obtain ⟨asked, hasked⟩ :
      ∃ asked, problem (Call.programAfter Call.scatteredForm [.alpha]) halvedNode
        (.vector halvedNode.solution) .default = .ok asked := ⟨_, rfl⟩
  obtain ⟨-, solved, reported⟩ := objective_evaluates Call.scatteredForm [.alpha] []
    (fun _ => .ok halvedOutcome) halvedNode (.vector halvedNode.solution) .default
  obtain ⟨relaxed, hsolved, hx⟩ := solved asked halvedOutcome hasked rfl
  have hlength : relaxed.x.length = Call.scatteredForm.size := by
    rw [hx]
    rfl
  exact ⟨asked, relaxed, hasked, hsolved, hlength, reported relaxed hsolved hlength⟩

end Relaxation

end BinaryQuadratic
