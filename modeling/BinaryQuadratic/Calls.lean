import BinaryQuadratic.Branching
import BinaryQuadratic.Relaxation.Program
import BinaryQuadratic.StartingPoint

/-!
# Calls on one form

A form that many calls share. Taking its best common value adds up the stored entries, which are
sorted and merged for that; every other call leaves the storage as it is.

* `Call`, `Answer`: what can be asked of a form, and what is answered;
* `Call.answer`, `Call.leaves`: the answer of one call, and the form after it;
* `Call.run`: the answers of calls one after another, and the form after the last.
-/

namespace BinaryQuadratic

/-- What can be asked of a form. Estimates and choices are made in a context of that form. -/
inductive Call (α : Type)
  | evaluate (point : Point α)
  | alpha
  | rho
  | alphaPoint
  | rhoPoint
  | flips (strategy : Choice) (seed visited : Plain) (node : Node α)
  | select (strategy : Choice) (seed visited : Plain) (node : Node α)
  | program

inductive Answer (α : Type)
  | value (v : α)
  | point (x : List α)
  | flips (flips : Branching.Flips α)
  | index (i : Nat)
  | program (program : Program α)
  deriving DecidableEq

namespace Call

variable {α : Type} [Scalar α]

def answer (f : Quadratic α) : Call α → Except Fault (Answer α)
  | .evaluate point => (f.evaluateAt point).map .value
  | .alpha => .ok (.value f.alpha)
  | .rho => .ok (.value f.rho)
  | .alphaPoint => .ok (.point (StartingPoint.ofAlpha f))
  | .rhoPoint => .ok (.point (StartingPoint.ofRho f))
  | .flips strategy seed visited node =>
    (Branching.flips ⟨f, strategy, seed, visited⟩ node).map .flips
  | .select strategy seed visited node =>
    (Branching.select ⟨f, strategy, seed, visited⟩ node).map .index
  | .program => .ok (.program (Program.ofForm f))

omit [Scalar α] in
/-- Whether the stored entries are added up. -/
def merges : Call α → Bool
  | .alpha | .alphaPoint => true
  | _ => false

def leaves (f : Quadratic α) (call : Call α) : Quadratic α :=
  if call.merges then f.merged else f

/-- The answers of calls one after another, and the form after the last. -/
def run (f : Quadratic α) : List (Call α) → List (Except Fault (Answer α)) × Quadratic α
  | [] => ([], f)
  | call :: rest =>
    let (answers, last) := run (call.leaves f) rest
    (call.answer f :: answers, last)

end Call

end BinaryQuadratic
